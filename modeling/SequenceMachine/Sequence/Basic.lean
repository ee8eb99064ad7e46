import SequenceMachine.Action
import SequenceMachine.Index

namespace SequenceMachine

structure Sequence (α : Type) where
  elements : List α
  mode : Mode
deriving DecidableEq, BEq

namespace Sequence

/-- The reasons to refuse a call. Indices and bounds are those of the request. -/
inductive Error where
  | overWrapped (left right : Int) (length : Nat)
  | bridgeSize (expected actual : Nat)
  | outOfBounds (index : Int) (length : Nat)
  | invertedRange (first last : Int) (length : Nat)
deriving DecidableEq

def Error.message : Error → String
  | .overWrapped left right length =>
    s!"assigning to cyclic slice with repeated entries ([{left}:{right}] on length {length})"
  | .bridgeSize expected actual =>
    s!"assignment to cyclic slice is not well defined (expected {expected} elements, got {actual})"
  | .outOfBounds index length => s!"sequence index {index} is out of bounds for length {length}"
  | .invertedRange first last length => s!"cannot delete [{first}:{last}] from sequence of length {length}"

inductive Event where
  | selfCopied (left right : Int) (length : Nat)
  | contiguous (start stop sourceLength : Nat)
  | bridging (start stop sourceLength : Nat)
  | refused (left right : Int) (length sourceLength : Nat) (cause : Error)
deriving DecidableEq

def Event.report : Event → Report
  | .selfCopied left right length =>
    ⟨.trace, "sequence.set_slice.alias_snapshot",
      [("left", .number left), ("right", .number right), ("len", .number length)]⟩
  | .contiguous start stop sourceLength =>
    ⟨.trace, "sequence.set_slice.non_bridging",
      [("start", .number start), ("end", .number stop), ("source_len", .number sourceLength)]⟩
  | .bridging start stop sourceLength =>
    ⟨.trace, "sequence.set_slice.bridging",
      [("start", .number start), ("end", .number stop), ("source_len", .number sourceLength)]⟩
  | .refused left right length sourceLength cause =>
    ⟨.debug, "sequence.set_slice.rejected",
      [("left", .number left), ("right", .number right), ("len", .number length),
        ("source_len", .number sourceLength), ("err", .text cause.message)]⟩

variable {α : Type}

abbrev Edit (α β : Type) : Type := Action Error Event (Sequence α) β

def empty (mode : Mode) : Sequence α := ⟨[], mode⟩

instance : Inhabited (Sequence α) := ⟨empty .bounded⟩

def ofList (elements : List α) : Sequence α := ⟨elements, .bounded⟩

def replicate {ε : Type} (length : Nat) (fill : α) (mode : Mode) : Outcome ε (Sequence α) :=
  if length ≤ Size.capacity then .ok ⟨List.replicate length fill, mode⟩ else .fault .capacity

def length (s : Sequence α) : Nat := s.elements.length

def isEmpty (s : Sequence α) : Bool := s.elements.isEmpty

def isCyclic (s : Sequence α) : Bool := s.mode = .cyclic

def position (s : Sequence α) (index : Int) : Outcome Error Nat := do
  Outcome.ofOption (.outOfBounds index s.length) (← Index.element index s.length s.mode)

def insertPosition (s : Sequence α) (index : Int) : Outcome Error Nat := do
  Outcome.ofOption (.outOfBounds index s.length) (← Index.insertion index s.length s.mode)

def read {ε : Type} (s : Sequence α) (position : Nat) : Outcome ε α :=
  match s.elements[position]? with
  | some a => .ok a
  | none => .fault (.position position s.length)

def get (s : Sequence α) (index : Int) : Outcome Error α := do
  s.read (← s.position index)

def exchange (index : Int) (value : α) : Edit α α :=
  Action.update fun s => do
    let p ← s.position index
    let old ← s.read p
    pure (old, { s with elements := s.elements.set p value })

def set (index : Int) (value : α) : Edit α Unit := do
  let _ ← exchange index value

def push (value : α) (s : Sequence α) : Sequence α := { s with elements := s.elements ++ [value] }

def pop : Edit α (Option α) :=
  Action.update fun s => pure (s.elements.getLast?, { s with elements := s.elements.dropLast })

def append (items : List α) (s : Sequence α) : Sequence α := { s with elements := s.elements ++ items }

def clear (s : Sequence α) : Sequence α := { s with elements := [] }

def splice (start stop : Nat) (items : List α) : Edit α Unit :=
  Action.update fun s =>
    if start ≤ stop ∧ stop ≤ s.length then
      pure ((), { s with elements := s.elements.take start ++ items ++ s.elements.drop stop })
    else .fault (.range start stop s.length)

def insert (index : Int) (items : List α) : Edit α Unit := do
  let p ← (← Action.state).insertPosition index
  splice p p items

/-- Deletes the elements from the one that `first` names to the one that `last` names. In a cyclic
sequence the range may cross the end of the buffer; in a bounded one it may not be inverted. -/
def delete (first last : Int) : Edit α Unit := do
  let s ← Action.state
  let start ← s.position first
  let stop ← s.position last
  if start ≤ stop then
    splice start (stop + 1) []
  else
    match s.mode with
    | .cyclic => do
      splice start s.length []
      splice 0 (stop + 1) []
    | .bounded => Action.reject (.invertedRange first last s.length)

theorem isEmpty_iff_length_eq_zero {s : Sequence α} : s.isEmpty = true ↔ s.length = 0 := by
  rw [isEmpty, List.isEmpty_iff, length, List.length_eq_zero_iff]

theorem read_eq_ok {ε : Type} {s : Sequence α} {p : Nat} (h : p < s.length) :
    (s.read p : Outcome ε α) = .ok s.elements[p] := by
  have hp : s.elements[p]? = some s.elements[p] := List.getElem?_eq_getElem h
  simp [read, hp]

/-- A range of the buffer is replaced as a whole, by any number of items. -/
theorem splice_apply {s : Sequence α} {start stop : Nat} (items : List α) (h : start ≤ stop)
    (hs : stop ≤ s.length) :
    splice start stop items s =
      ⟨.ok (), { s with elements := s.elements.take start ++ items ++ s.elements.drop stop }, []⟩ := by
  simp [splice, Action.update, h, hs]

end Sequence

end SequenceMachine
