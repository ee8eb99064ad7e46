import SequenceMachine.Toml.Value

/-!
Unquoted scalars: truth values, integers, floats and points in time. Each is recognised from the whole
run of characters that it is written with. A document may also hold numerals that stand for no number,
as long as nobody asks for it: the digits of an integer are read only then, and a numeral with
underscores is recognised by what stands around these.
-/

namespace SequenceMachine.Toml

def digitValue (c : Char) : Nat :=
  if c.isDigit then c.toNat - '0'.toNat
  else if 'a' ≤ c ∧ c ≤ 'f' then c.toNat - 'a'.toNat + 10
  else if 'A' ≤ c ∧ c ≤ 'F' then c.toNat - 'A'.toNat + 10
  else 16

def isDigitIn (base : Nat) (c : Char) : Bool := digitValue c < base

def ungroup (base : Nat) : List Char → Option (List Char)
  | [] => none
  | [c] => if isDigitIn base c then some [c] else none
  | c :: '_' :: rest => if isDigitIn base c then (ungroup base rest).map (c :: ·) else none
  | c :: rest => if isDigitIn base c then (ungroup base rest).map (c :: ·) else none

def numberOf (base : Nat) (digits : List Char) : Nat :=
  digits.foldl (fun n c => n * base + digitValue c) 0

def numeral? (base : Nat) (cs : List Char) : Option Nat := (ungroup base cs).map (numberOf base)

def decimal? (cs : List Char) : Option Nat :=
  if cs.head? = some '0' ∧ cs ≠ ['0'] then none else numeral? 10 cs

def signed : List Char → Bool × List Char
  | '-' :: cs => (true, cs)
  | '+' :: cs => (false, cs)
  | cs => (false, cs)

def integer? : List Char → Option Int
  | '0' :: 'x' :: cs => (numeral? 16 cs).map Int.ofNat
  | '0' :: 'o' :: cs => (numeral? 8 cs).map Int.ofNat
  | '0' :: 'b' :: cs => (numeral? 2 cs).map Int.ofNat
  | cs =>
    let (negative, digits) := signed cs
    (decimal? digits).map fun n => if negative then -Int.ofNat n else Int.ofNat n

def isGrouped : List Char → Bool
  | [] => true
  | '_' :: _ => false
  | [_] => true
  | c :: '_' :: rest => isDigitIn 16 c && (rest.head?.map (isDigitIn 16)).getD false && isGrouped rest
  | _ :: rest => isGrouped rest

/-- Whether the text is a numeral with underscores. It begins with digits, but not with a zero, up to
the first underscore, and has nothing in it that makes it a float; else only the characters next to its
underscores matter. -/
def isGroupedNumeral (cs : List Char) : Bool :=
  let unsigned := (signed cs).2
  unsigned.head? ≠ some '0' && (unsigned.dropWhile Char.isDigit).head? = some '_' &&
    unsigned.all (fun c => c ∉ [' ', '.', 'e', 'E']) && isGrouped cs

def isBaseMark (cs : List Char) : Bool := cs ∈ [['0', 'x'], ['0', 'o'], ['0', 'b']]

def isExponent : List Char → Bool
  | c :: cs => (c = 'e' || c = 'E') && (ungroup 10 (signed cs).2).isSome
  | [] => false

def isFraction : List Char → Bool
  | '.' :: cs =>
    let digits := cs.takeWhile fun c => c ≠ 'e' ∧ c ≠ 'E'
    let rest := cs.dropWhile fun c => c ≠ 'e' ∧ c ≠ 'E'
    (ungroup 10 digits).isSome && (rest.isEmpty || isExponent rest)
  | cs => isExponent cs

def isFloat (cs : List Char) : Bool :=
  let unsigned := (signed cs).2
  let isWhole (c : Char) : Bool := c ≠ '.' && c ≠ 'e' && c ≠ 'E'
  unsigned = ['i', 'n', 'f'] || unsigned = ['n', 'a', 'n'] ||
    ((decimal? (unsigned.takeWhile isWhole)).isSome && isFraction (unsigned.dropWhile isWhole))

def fixed? (count : Nat) (cs : List Char) : Option (Nat × List Char) :=
  let digits := cs.take count
  if digits.length = count ∧ digits.all Char.isDigit then some (numberOf 10 digits, cs.drop count)
  else none

def daysIn (year month : Nat) : Nat :=
  if month = 2 then
    if year % 4 = 0 ∧ (year % 100 ≠ 0 ∨ year % 400 = 0) then 29 else 28
  else if month ∈ [4, 6, 9, 11] then 30
  else 31

def date? (cs : List Char) : Option (List Char) := do
  let (year, '-' :: cs) ← fixed? 4 cs | none
  let (month, '-' :: cs) ← fixed? 2 cs | none
  let (day, cs) ← fixed? 2 cs
  if 1 ≤ month ∧ month ≤ 12 ∧ 1 ≤ day ∧ day ≤ daysIn year month then some cs else none

def secondFraction? : List Char → Option (List Char)
  | '.' :: c :: cs => if c.isDigit then some (cs.dropWhile Char.isDigit) else none
  | '.' :: [] => none
  | cs => some cs

/-- What follows a time of the day. Seconds may be left out; there is room for a leap second. -/
def timeOfDay? (cs : List Char) : Option (List Char) := do
  let (hour, ':' :: cs) ← fixed? 2 cs | none
  let (minute, cs) ← fixed? 2 cs
  if hour ≤ 23 ∧ minute ≤ 59 then
    match cs with
    | ':' :: cs => do
      let (second, cs) ← fixed? 2 cs
      if second ≤ 60 then secondFraction? cs else none
    | cs => some cs
  else none

def isOffset : List Char → Bool
  | [] => true
  | ['Z'] | ['z'] => true
  | c :: cs =>
    (c = '+' || c = '-') &&
      match timeOfDay? cs with
      | some [] => cs.length = 5
      | _ => false

def isTime (cs : List Char) : Bool :=
  match date? cs with
  | some [] => true
  | some (c :: rest) =>
    (c = 'T' || c = 't' || c = ' ') && ((timeOfDay? rest).map isOffset).getD false
  | none => timeOfDay? cs = some []

def scalar? (cs : List Char) : Option Value :=
  if cs = ['t', 'r', 'u', 'e'] then some (.boolean true)
  else if cs = ['f', 'a', 'l', 's', 'e'] then some (.boolean false)
  else
    match integer? cs with
    | some n => some (.integer n)
    | none =>
      if isBaseMark cs || isGroupedNumeral cs then some (.numeral (String.ofList cs))
      else if isFloat cs then some (.float (String.ofList cs))
      else if isTime cs then some (.time (String.ofList cs))
      else none

end SequenceMachine.Toml
