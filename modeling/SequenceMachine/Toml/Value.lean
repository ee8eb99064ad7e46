/-!
TOML values, and how a document builds a table of them. A table remembers what made it, because that
decides which later lines may add to it: a table written in braces is complete, a table that a header
opened may not be opened again, and one that only dotted keys made takes further dotted keys.
-/

namespace SequenceMachine.Toml

inductive Origin where
  /-- A header with its name. -/
  | header
  /-- A header with a longer name. -/
  | implied
  /-- A dotted key. -/
  | dotted
  /-- Braces around its fields. -/
  | inline
deriving DecidableEq

/-- A TOML value. Numbers with a fraction or an exponent and points in time are kept as written, and so
are numerals from which no number can be read. -/
inductive Value where
  | string (text : String)
  | integer (number : Int)
  | numeral (text : String)
  | float (text : String)
  | boolean (flag : Bool)
  | time (text : String)
  | array (items : List Value)
  | table (origin : Origin) (fields : List (String × Value))

abbrev Fields : Type := List (String × Value)

namespace Fields

def alter (f : Option Value → Option Value) (key : String) : Fields → Option Fields
  | [] => (f none).map fun v => [(key, v)]
  | (k, v) :: rest =>
    if k = key then (f (some v)).map fun v' => (k, v') :: rest
    else (alter f key rest).map ((k, v) :: ·)

/-- Adds a value under a dotted key. It may add to tables that dotted keys made, but not change a value
or reach into a table made otherwise. -/
def insert (v : Value) : List String → Fields → Option Fields
  | [], _ => none
  | [key], fields => fields.alter (fun present => if present.isNone then some v else none) key
  | key :: path, fields =>
    fields.alter (fun
      | none => (insert v path []).map (.table .dotted)
      | some (.table .dotted inner) => (insert v path inner).map (.table .dotted)
      | some _ => none) key

/-- Changes the fields of the table that a header names, making the tables on the way that are not yet
there. In an array of tables the last table is meant. -/
def within (f : Fields → Option Fields) : List String → Fields → Option Fields
  | [], fields => f fields
  | key :: path, fields =>
    fields.alter (fun
      | none => (within f path []).map (.table .implied)
      | some (.table .inline _) => none
      | some (.table origin inner) => (within f path inner).map (.table origin)
      | some (.array items) =>
        match items.getLast? with
        | some (.table .header inner) =>
          (within f path inner).map fun inner' => .array (items.dropLast ++ [.table .header inner'])
        | _ => none
      | some _ => none) key

/-- Opens the table of a header. It must be new, or known only from the names of other headers. -/
def openTable (path : List String) (fields : Fields) : Option Fields := do
  let key ← path.getLast?
  fields.within (fun inner => inner.alter (fun
    | none => some (.table .header [])
    | some (.table .implied fields) => some (.table .header fields)
    | some _ => none) key) path.dropLast

def openArrayTable (path : List String) (fields : Fields) : Option Fields := do
  let key ← path.getLast?
  fields.within (fun inner => inner.alter (fun
    | none => some (.array [.table .header []])
    | some (.array items) =>
      match items.getLast? with
      | some (.table .header _) => some (.array (items ++ [.table .header []]))
      | _ => none
    | some _ => none) key) path.dropLast

end Fields

end SequenceMachine.Toml
