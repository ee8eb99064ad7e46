namespace SequenceMachine

structure Handle where
  slot : Nat
deriving DecidableEq

def Handle.text (h : Handle) : String := s!"#{h.slot}"

inductive Value where
  | nothing
  | int (value : Int)
  | str (value : String)
  | seq (handle : Handle)
deriving DecidableEq

namespace Value

/-- A register that nothing was stored in holds `nothing`. -/
instance : Inhabited Value := ⟨.nothing⟩

inductive Kind where
  | nothing
  | int
  | string
  | sequence
deriving DecidableEq

def Kind.name : Kind → String
  | .nothing => "nothing"
  | .int => "int"
  | .string => "string"
  | .sequence => "sequence"

def kind : Value → Kind
  | .nothing => .nothing
  | .int _ => .int
  | .str _ => .string
  | .seq _ => .sequence

def asInt? : Value → Option Int
  | .int value => some value
  | _ => none

def asSeq? : Value → Option Handle
  | .seq handle => some handle
  | _ => none

end Value

end SequenceMachine
