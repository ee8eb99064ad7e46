import SequenceMachine.Toml.Text

namespace SequenceMachine.Toml

open SequenceMachine.Toml.Parser

def isBare (c : Char) : Bool := c.isAlphanum || c = '-' || c = '_'

def simpleKey : Parser String :=
  basicString <|> literalString <|> do
    let cs ← takeWhile isBare
    if cs.isEmpty then failure else return String.ofList cs

def maxKeyParts : Nat := 80

def key : Parser (List String) := do
  let first ← simpleKey
  let rest ← many do
    blank
    char '.'
    blank
    simpleKey
  if rest.length < maxKeyParts then return first :: rest else failure

def isWordPart (c : Char) : Bool :=
  c ∉ [' ', '\t', '\r', '\n', '#', '=', ',', '[', ']', '\x7b', '\x7d']

def isWordStart (c : Char) : Bool := isWordPart c && c ∉ ['.', '"', '\'']

def unquotedText : Parser (List Char) := do
  let first ← takeWhile isWordPart
  let more ← many do
    let gap ← takeWhile isBlank
    let c ← satisfy isWordStart
    let word ← takeWhile isWordPart
    return gap ++ c :: word
  return first ++ more.flatten

def unquoted : Parser Value := do
  scalar? (← unquotedText)

def keyValue (gap : Parser Unit) (value : Parser Value) : Parser (List String × Value) := do
  let path ← key
  gap
  char '='
  gap
  return (path, ← value)

def array (value : Parser Value) : Parser Value := do
  char '['
  blankLines
  let items ← commaSeparated value blankLines
  char ']'
  return .array items

def inlineTable (value : Parser Value) : Parser Value := do
  char '\x7b'
  blankLines
  let entries ← commaSeparated (keyValue blankLines value) blankLines
  char '\x7d'
  let fields ← entries.foldlM (fun (fields : Fields) (path, v) => fields.insert v path) []
  return .table .inline fields

def flatValue : Parser Value := do
  match ← peek with
  | some '"' => return .string (← multilineBasicString <|> basicString)
  | some '\'' => return .string (← multilineLiteralString <|> literalString)
  | _ => unquoted

def value : Nat → Parser Value
  | 0 => flatValue
  | depth + 1 => do
    match ← peek with
    | some '[' => array (value depth)
    | some '\x7b' => inlineTable (value depth)
    | _ => flatValue

def maxDepth : Nat := 80

inductive Line where
  | blank
  | entry (path : List String) (v : Value)
  | table (path : List String)
  | arrayTable (path : List String)

def headerName : Parser (List String) := do
  blank
  let path ← key
  blank
  return path

def arrayHeader : Parser Line := do
  chars ['[', '[']
  let path ← headerName
  chars [']', ']']
  return .arrayTable path

def header : Parser Line := do
  char '['
  let path ← headerName
  char ']'
  return .table path

def line : Parser Line := do
  blank
  let said ← arrayHeader <|> header
    <|> (do
      let (path, v) ← keyValue blank (value maxDepth)
      return .entry path v)
    <|> pure .blank
  blank
  comment <|> pure ()
  return said

def lines : Parser (List Line) := do
  char '\ufeff' <|> pure ()
  let first ← line
  let rest ← many do
    newline
    line
  done
  return first :: rest

/-- Adds what a line says to a table. An entry belongs to the table of the last header, which is kept
beside the table. -/
def addLine (made : Fields × List String) : Line → Option (Fields × List String)
  | .blank => some made
  | .entry path v => do return (← made.1.within (fun inner => inner.insert v path) made.2, made.2)
  | .table path => do return (← made.1.openTable path, path)
  | .arrayTable path => do return (← made.1.openArrayTable path, path)

def parse? (text : String) : Option Fields := do
  let (found, _) ← lines.run text.toList
  let (fields, _) ← found.foldlM addLine ([], [])
  return fields

end SequenceMachine.Toml
