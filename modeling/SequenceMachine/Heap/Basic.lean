import SequenceMachine.Sequence.Call
import SequenceMachine.Value

/-!
The heap: stored sequences, each in a numbered slot that its handle names. Released slots are kept on a
stack and used again, the last one first. A handle is checked only for a sequence in its slot, so one
that was released and whose slot was used again names the newer sequence. The operations on a heap are
also there as data (`Request`).
-/

namespace SequenceMachine

/-- The slots issued so far, each with its sequence if it is live, and the stack of free slots. -/
structure Heap where
  slots : List (Option (Sequence Value))
  free : List Nat
deriving DecidableEq

namespace Heap

inductive Error where
  | sequence (cause : Sequence.Error)
  | released (id : Handle)
deriving DecidableEq

def Error.message : Error → String
  | .sequence cause => cause.message
  | .released id => s!"sequence {id.text} has been released"

abbrev Edit (α : Type) : Type := Action Error Sequence.Event Heap α

def empty : Heap := ⟨[], []⟩

instance : Inhabited Heap := ⟨empty⟩

def get? (h : Heap) (id : Handle) : Option (Sequence Value) := (h.slots[id.slot]?).join

def live (h : Heap) : List (Handle × Sequence Value) :=
  h.slots.zipIdx.filterMap fun (content, slot) => content.map (⟨slot⟩, ·)

def count (h : Heap) : Nat := h.slots.countP Option.isSome

def isEmpty (h : Heap) : Bool := h.count = 0

def lookup (h : Heap) (id : Handle) : Outcome Error (Sequence Value) :=
  Outcome.ofOption (.released id) (h.get? id)

def nextSlot (h : Heap) : Nat := h.free.headD h.slots.length

def allocate (s : Sequence Value) : Edit Handle :=
  Action.update fun h => pure (⟨h.nextSlot⟩,
    match h.free with
    | [] => { h with slots := h.slots ++ [some s] }
    | slot :: free => ⟨h.slots.set slot (some s), free⟩)

def release (id : Handle) : Edit (Sequence Value) :=
  Action.update fun h => do
    let s ← h.lookup id
    pure (s, ⟨h.slots.set id.slot none, id.slot :: h.free⟩)

def replace (h : Heap) (id : Handle) (s : Sequence Value) : Heap :=
  { h with slots := h.slots.set id.slot (some s) }

def edit {β : Type} (id : Handle) (x : Sequence.Edit Value β) : Edit β := do
  let s ← (← Action.state).lookup id
  Action.focus (fun _ => s) (fun s' h => h.replace id s') Error.sequence (fun event => event) x

/-- The sequences of two slots that are used at once. The slots have to be different, and none may be
further than the end of those issued. -/
def lookupTwo {ε : Type} (h : Heap) (a b : Handle) :
    Outcome ε (Option (Sequence Value × Sequence Value)) :=
  if a = b then .fault (.sharedSlot a.slot)
  else if h.slots.length < max a.slot b.slot then
    .fault (.slotBeyondEnd (max a.slot b.slot) h.slots.length)
  else pure do
    let s ← h.get? a
    let t ← h.get? b
    return (s, t)

def assign (dst : Handle) (left right : Int) (src : Handle) : Edit Unit := do
  if dst = src then
    edit dst (Sequence.assignSelf left right)
  else
    let h ← Action.state
    let _ ← h.lookup src
    let found ← (h.lookupTwo dst src : Outcome Error _)
    let (_, source) ← Outcome.ofOption (Error.released dst) found
    edit dst (Sequence.assign left right source.elements)

inductive Request where
  | allocate (s : Sequence Value)
  | get (id : Handle)
  | release (id : Handle)
  | assign (dst : Handle) (left right : Int) (src : Handle)
  | call (id : Handle) (call : Sequence.Call Value)
  | count
  | isEmpty

inductive Reply where
  | done
  | handle (id : Handle)
  | sequence (s : Sequence Value)
  | answer (value : Sequence.Answer Value)
  | size (value : Nat)
  | flag (value : Bool)

def perform : Request → Edit Reply
  | .allocate s => do return .handle (← allocate s)
  | .get id => do return .sequence (← (← Action.state).lookup id)
  | .release id => do return .sequence (← release id)
  | .assign dst left right src => do assign dst left right src; return .done
  | .call id call => do return .answer (← edit id (Sequence.perform call))
  | .count => do return .size (← Action.state).count
  | .isEmpty => do return .flag (← Action.state).isEmpty

@[simp] theorem get?_empty (id : Handle) : empty.get? id = none := by
  simp [get?, empty]

/-- A live sequence stands in an issued slot. -/
theorem slot_lt_of_get?_eq_some {h : Heap} {id : Handle} {s : Sequence Value} (hs : h.get? id = some s) :
    id.slot < h.slots.length := by
  unfold get? at hs
  cases hc : h.slots[id.slot]? with
  | none => simp [hc] at hs
  | some content => exact (List.getElem?_eq_some_iff.mp hc).1

theorem get?_replace_self {h : Heap} {id : Handle} {s : Sequence Value} (hs : h.get? id = some s)
    (s' : Sequence Value) : (h.replace id s').get? id = some s' := by
  have hlt := slot_lt_of_get?_eq_some hs
  simp [get?, replace, hlt]

/-- A replacement is seen under its own handle only. -/
theorem get?_replace_of_ne {h : Heap} {id other : Handle} (hne : other ≠ id) (s' : Sequence Value) :
    (h.replace id s').get? other = h.get? other := by
  have hslot : id.slot ≠ other.slot := by
    intro heq
    exact hne (by cases id; cases other; simp_all)
  simp [get?, replace, List.getElem?_set_ne hslot]

end Heap

end SequenceMachine
