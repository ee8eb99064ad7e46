import SequenceMachine.Toml.Scalar
import SequenceMachine.Toml.Parser

namespace SequenceMachine.Toml

open SequenceMachine.Toml.Parser

def isPlain (c : Char) : Bool := c = '\t' || (0x20 ≤ c.toNat && c.toNat ≠ 0x7F)

def isBlank (c : Char) : Bool := c = ' ' || c = '\t'

def blank : Parser Unit := do
  let _ ← takeWhile isBlank

def newline : Parser Unit := char '\n' <|> chars ['\r', '\n']

def comment : Parser Unit := do
  char '#'
  let _ ← takeWhile isPlain

def blankLines : Parser Unit := do
  blank
  let _ ← many do
    comment <|> pure ()
    newline
    blank

def codePoint (count : Nat) : Parser Char := do
  let s ← get
  let digits := s.take count
  if digits.length = count ∧ digits.all (isDigitIn 16) then
    let n := numberOf 16 digits
    if n.isValidChar then
      set (s.drop count)
      return Char.ofNat n
    else failure
  else failure

def escaped : Parser Char := do
  match ← satisfy fun _ => true with
  | 'b' => return '\x08'
  | 't' => return '\t'
  | 'n' => return '\n'
  | 'f' => return '\x0c'
  | 'r' => return '\r'
  | 'e' => return '\x1b'
  | '"' => return '"'
  | '\\' => return '\\'
  | 'x' => codePoint 2
  | 'u' => codePoint 4
  | 'U' => codePoint 8
  | _ => failure

def basicString : Parser String := do
  char '"'
  let cs ← many do
    match ← satisfy isPlain with
    | '"' => failure
    | '\\' => escaped
    | c => return c
  char '"'
  return String.ofList cs

def literalString : Parser String := do
  char '\''
  let cs ← takeWhile fun c => isPlain c && c ≠ '\''
  char '\''
  return String.ofList cs

def innerQuotes (quote : Char) : Parser (List Char) := do
  let run ← takeWhile (· = quote)
  if run.length = 1 ∨ run.length = 2 then return run else failure

/-- The end of a string on several lines: three quotes, before which one or two more belong to it. -/
def closingQuotes (quote : Char) : Parser (List Char) := do
  let run ← takeWhile (· = quote)
  if 3 ≤ run.length ∧ run.length ≤ 5 then return run.drop 3 else failure

def multiline (quote : Char) (piece : Parser (List Char)) : Parser String := do
  chars [quote, quote, quote]
  newline <|> pure ()
  let pieces ← many (innerQuotes quote <|> (do newline; return ['\n']) <|> piece)
  let last ← closingQuotes quote
  return String.ofList (pieces.flatten ++ last)

def continuation : Parser (List Char) := do
  blank
  newline
  let _ ← many do
    newline <|> do
      let _ ← satisfy isBlank
  return []

def multilineBasicString : Parser String := multiline '"' do
  match ← satisfy isPlain with
  | '"' => failure
  | '\\' => continuation <|> do return [← escaped]
  | c => return [c]

def multilineLiteralString : Parser String := multiline '\'' do
  return [← satisfy fun c => isPlain c && c ≠ '\'']

end SequenceMachine.Toml
