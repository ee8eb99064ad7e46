import Mathlib.Logic.Function.Basic
import SequenceMachine.Proofs.Machine.Plan
import SequenceMachine.Proofs.Sequence.Map

namespace SequenceMachine

/-- New names for registers and slots. Different slots get different names, and so do different
registers among those that programs may name. -/
structure Renaming where
  names : Register → Prop
  register : Register → Register
  slot : Nat → Nat
  register_injective : ∀ r r', names r → names r' → register r = register r' → r = r'
  slot_injective : Function.Injective slot

namespace Renaming

def ofSlots (f : Nat → Nat) (hf : Function.Injective f) : Renaming :=
  ⟨fun _ => True, fun r => r, f, fun _ _ _ _ h => h, hf⟩

variable (ρ : Renaming)

def handle (id : Handle) : Handle := ⟨ρ.slot id.slot⟩

def value : Value → Value
  | .seq id => .seq (ρ.handle id)
  | v => v

def sequence (s : Sequence Value) : Sequence Value := s.map ρ.value

def error : Machine.Error → Machine.Error
  | .heap (.released id) => .heap (.released (ρ.handle id))
  | .noRegister r => .noRegister (ρ.register r)
  | e => e

def effect : Machine.Effect → Machine.Effect
  | .none => .none
  | .load dst v => .load (ρ.register dst) (ρ.value v)
  | .store dst s => .store (ρ.register dst) (ρ.sequence s)
  | .replace id s => .replace (ρ.handle id) (ρ.sequence s)
  | .release id => .release (ρ.handle id)

def instruction : Instruction → Instruction
  | .loadInt dst val => .loadInt (ρ.register dst) val
  | .loadStr dst val => .loadStr (ρ.register dst) val
  | .newSeq dst length mode => .newSeq (ρ.register dst) length mode
  | .collect dst srcs mode => .collect (ρ.register dst) (srcs.map ρ.register) mode
  | .len dst seq => .len (ρ.register dst) (ρ.register seq)
  | .index dst seq index => .index (ρ.register dst) (ρ.register seq) (ρ.register index)
  | .setIndex seq index src => .setIndex (ρ.register seq) (ρ.register index) (ρ.register src)
  | .slice dst seq left right =>
    .slice (ρ.register dst) (ρ.register seq) (ρ.register left) (ρ.register right)
  | .setSlice seq left right src =>
    .setSlice (ρ.register seq) (ρ.register left) (ρ.register right) (ρ.register src)
  | .push seq src => .push (ρ.register seq) (ρ.register src)
  | .release seq => .release (ρ.register seq)
  | .ret src => .ret (ρ.register src)

/-- Different handles get different names. -/
theorem handle_injective : Function.Injective ρ.handle := by
  intro id id' heq
  cases id
  cases id'
  exact congrArg Handle.mk (ρ.slot_injective (congrArg Handle.slot heq))

@[simp] theorem kind_value (v : Value) : (ρ.value v).kind = v.kind := by
  cases v <;> rfl

@[simp] theorem asInt?_value (v : Value) : (ρ.value v).asInt? = v.asInt? := by
  cases v <;> rfl

@[simp] theorem asSeq?_value (v : Value) : (ρ.value v).asSeq? = v.asSeq?.map ρ.handle := by
  cases v <;> rfl

/-- A renamed program returns at the same place, from the renamed register. -/
theorem returned?_instruction (i : Instruction) :
    (ρ.instruction i).returned? = i.returned?.map ρ.register := by
  cases i <;> rfl

theorem instruction_ofSlots {f : Nat → Nat} (hf : Function.Injective f) (i : Instruction) :
    (ofSlots f hf).instruction i = i := by
  cases i with
  | collect dst srcs mode =>
    have hsrcs : srcs.map (ofSlots f hf).register = srcs := List.map_id srcs
    simp only [instruction, hsrcs]
    rfl
  | _ => rfl

end Renaming

end SequenceMachine
