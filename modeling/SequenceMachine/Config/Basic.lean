import SequenceMachine.Size

namespace SequenceMachine

structure Limits where
  /-- The largest length that an instruction may give a sequence, if there is one. -/
  maxSequenceLength : Option Nat
deriving DecidableEq

namespace Limits

def unlimited : Limits := ⟨none⟩

def ceiling (limits : Limits) : Nat :=
  match limits.maxSequenceLength with
  | none => Size.capacity
  | some length => min length Size.capacity

/-- Whatever the limits say, no length above the capacity is permitted. -/
theorem ceiling_le_capacity (limits : Limits) : limits.ceiling ≤ Size.capacity := by
  unfold ceiling
  split
  · exact Nat.le_refl _
  · exact Nat.min_le_right _ _

end Limits

structure Config where
  registers : Nat
  traceInstructions : Bool
  limits : Limits
deriving DecidableEq

def Config.default : Config := ⟨16, false, Limits.unlimited⟩

instance : Inhabited Config := ⟨Config.default⟩

end SequenceMachine
