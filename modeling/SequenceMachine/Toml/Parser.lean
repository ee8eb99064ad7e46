namespace SequenceMachine.Toml

abbrev Parser (α : Type) : Type := StateT (List Char) Option α

namespace Parser

variable {α : Type}

def peek : Parser (Option Char) := do return (← get).head?

def satisfy (p : Char → Bool) : Parser Char := do
  match ← get with
  | c :: rest => if p c then set rest; return c else failure
  | [] => failure

def char (c : Char) : Parser Unit := do
  let _ ← satisfy (· = c)

def chars : List Char → Parser Unit
  | [] => pure ()
  | c :: cs => do char c; chars cs

def takeWhile (p : Char → Bool) : Parser (List Char) := do
  let s ← get
  set (s.dropWhile p)
  return s.takeWhile p

def done : Parser Unit := do
  if (← get).isEmpty then pure () else failure

def manyUpTo (p : Parser α) : Nat → Parser (List α)
  | 0 => pure []
  | n + 1 => (do
    let a ← p
    let as ← manyUpTo p n
    return a :: as) <|> pure []

def many (p : Parser α) : Parser (List α) := do
  manyUpTo p (← get).length

def commaSeparated (item : Parser α) (blank : Parser Unit) : Parser (List α) :=
  (do
    let first ← item
    blank
    let rest ← many do
      char ','
      blank
      let a ← item
      blank
      return a
    (do char ','; blank) <|> pure ()
    return first :: rest) <|> pure []

end Parser

end SequenceMachine.Toml
