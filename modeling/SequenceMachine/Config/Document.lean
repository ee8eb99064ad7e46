import SequenceMachine.Config.Basic
import SequenceMachine.Toml.Document

namespace SequenceMachine

inductive Config.Error where
  | invalidDocument
  | noRegisters
deriving DecidableEq

def Config.Error.message : Config.Error → String
  | .invalidDocument => "not a valid configuration document"
  | .noRegisters => "registers must be at least 1"

def Toml.Value.size? : Toml.Value → Option Nat
  | .integer n => Size.ofInt? n
  | _ => none

def Toml.Value.flag? : Toml.Value → Option Bool
  | .boolean flag => some flag
  | _ => none

def Limits.ofValue? : Toml.Value → Option Limits
  | .table _ fields =>
    if fields.all fun field => field.1 = "max_sequence_len" then
      match fields.lookup "max_sequence_len" with
      | some v => v.size?.map fun length => ⟨some length⟩
      | none => some Limits.unlimited
    else none
  | .array [] => some Limits.unlimited
  | .array (v :: _) => v.size?.map fun length => ⟨some length⟩
  | _ => none

namespace Config

def keys : List String := ["registers", "trace_instructions", "limits"]

def field? {α : Type} (fields : Toml.Fields) (key : String) (read? : Toml.Value → Option α)
    (default : α) : Option α :=
  match fields.lookup key with
  | some v => read? v
  | none => some default

def ofFields? (fields : Toml.Fields) : Option Config := do
  if fields.all fun field => field.1 ∈ keys then
    let registers ← field? fields "registers" Toml.Value.size? Config.default.registers
    let trace ← field? fields "trace_instructions" Toml.Value.flag? Config.default.traceInstructions
    let limits ← field? fields "limits" Limits.ofValue? Config.default.limits
    return ⟨registers, trace, limits⟩
  else none

/-- Reads settings from the table that `parse?` makes of a text. That there has to be a register is only
asked of a document that is valid otherwise. -/
def ofDocument (parse? : String → Option Toml.Fields) (text : String) : Except Error Config :=
  match parse? text >>= ofFields? with
  | none => .error .invalidDocument
  | some config => if config.registers = 0 then .error .noRegisters else .ok config

def ofToml (text : String) : Except Error Config := ofDocument Toml.parse? text

end Config

end SequenceMachine
