import SequenceMachine.Proofs.Sequence.Atomic

namespace SequenceMachine.Sequence

variable {α β ε ε' : Type}

def map (f : α → β) (s : Sequence α) : Sequence β := ⟨s.elements.map f, s.mode⟩

variable (f : α → β) (s : Sequence α)

@[simp] theorem elements_map : (s.map f).elements = s.elements.map f := rfl

@[simp] theorem mode_map : (s.map f).mode = s.mode := rfl

@[simp] theorem length_map : (s.map f).length = s.length := List.length_map f

@[simp] theorem isEmpty_map : (s.map f).isEmpty = s.isEmpty := by
  simp [isEmpty, map]

theorem push_map (v : α) : (s.map f).push (f v) = (s.push v).map f := by
  simp [push, map]

theorem replicate_map (g : ε → ε') (n : Nat) (v : α) (mode : Mode) :
    (replicate n (f v) mode : Outcome ε' (Sequence β)) =
      (replicate n v mode : Outcome ε (Sequence α)).bimap g (map f) := by
  unfold replicate
  split
  · simp [map]
  · rfl

section Element
variable (index : Int)

@[simp] theorem position_map : (s.map f).position index = s.position index := by
  simp [position]

theorem read_map (p : Nat) : ((s.map f).read p : Outcome ε β) = f <$> s.read p := by
  unfold read
  rw [elements_map, List.getElem?_map, length_map]
  cases s.elements[p]? <;> rfl

theorem get_map : (s.map f).get index = f <$> s.get index := by
  unfold get
  rw [position_map]
  cases s.position index with
  | ok p => exact read_map f s p
  | error e => rfl
  | fault c => rfl

theorem stateAfter_set_map (v : α) :
    Action.stateAfter (set index (f v)) (s.map f) = map f <$> Action.stateAfter (set index v) s := by
  unfold Action.stateAfter
  rw [set_apply, set_apply, position_map]
  cases s.position index with
  | ok p => simp [map, List.map_set]
  | error e => rfl
  | fault c => rfl

end Element

section Slice
variable (left right : Int)

theorem takeTurns_map (buffer rest : List α) (n : Nat) :
    takeTurns (buffer.map f) (rest.map f) n = (takeTurns buffer rest n).map f := by
  induction n generalizing rest with
  | zero => cases rest <;> rfl
  | succ n ih =>
    cases rest with
    | cons a rest =>
      have hrest := ih rest
      simp only [List.map_cons, takeTurns, hrest]
    | nil =>
      cases buffer with
      | nil => rfl
      | cons a buffer =>
        have hrest := ih buffer
        simp only [List.map_cons, List.map_nil, takeTurns] at hrest ⊢
        rw [hrest]

theorem copyRange_map (g : ε → ε') (start stop : Nat) :
    ((s.map f).copyRange start stop : Outcome ε' (List β)) =
      (s.copyRange start stop : Outcome ε (List α)).bimap g (List.map f) := by
  unfold copyRange
  rw [length_map, elements_map]
  split
  · rw [Outcome.bimap_ok, List.map_drop, List.map_take]
  · rfl

@[simp] theorem sliceLength_map : (s.map f).sliceLength left right = s.sliceLength left right := by
  simp [sliceLength]

/-- A slice of the changed sequence is the changed slice. -/
theorem slice_map (g : ε → ε') :
    ((s.map f).slice left right : Outcome ε' (Sequence β)) =
      (s.slice left right : Outcome ε (Sequence α)).bimap g (map f) := by
  have hwrap : (Index.wrap left s.length : Outcome ε' Nat) =
      (Index.wrap left s.length : Outcome ε Nat).bimap g fun p => p := by
    unfold Index.wrap
    split <;> rfl
  unfold slice
  rw [isEmpty_map, mode_map, length_map]
  split
  · rfl
  · cases s.mode with
    | cyclic =>
      dsimp only
      split
      · rfl
      · -- The turns begin at the same position and take as many elements.
        refine Outcome.bind_eq_bimap hwrap fun start _ => ?_
        split
        · have hturns := takeTurns_map f s.elements (s.elements.drop start) (Index.span left right)
          rw [List.map_drop] at hturns
          rw [elements_map, hturns]
          rfl
        · rfl
    | bounded =>
      dsimp only
      split
      · rfl
      · refine Outcome.bind_eq_bimap (copyRange_map f s g _ _) fun copied _ => ?_
        rfl

end Slice

section Assign
variable (left right : Int) (n : Nat)

/-- The target of an assignment does not depend on the elements. -/
@[simp] theorem target_map : (s.map f).target left right n = s.target left right n := by
  simp [target]

@[simp] theorem assignedLength_map :
    (s.map f).assignedLength left right n = s.assignedLength left right n := by
  simp [assignedLength]

theorem write_map (found : Target) (source buffer : List α) :
    found.write (source.map f) (buffer.map f) = (found.write source buffer).map f := by
  cases found <;> simp [Target.write, List.map_drop, List.map_take]

/-- Changed elements assigned to a changed sequence give the changed result, with the same error. -/
theorem stateAfter_assign_map (source : List α) :
    Action.stateAfter (assign left right (source.map f)) (s.map f) =
      map f <$> Action.stateAfter (assign left right source) s := by
  unfold Action.stateAfter
  have hmapped : (s.map f).target left right (source.map f).length =
      s.target left right source.length := by
    rw [target_map, List.length_map]
  cases htarget : s.target left right source.length with
  | ok found =>
    rw [assign_apply_of_target htarget, assign_apply_of_target (hmapped.trans htarget)]
    simp [map, write_map]
  | error e =>
    rw [assign_apply_of_error htarget, assign_apply_of_error (hmapped.trans htarget)]
    rfl
  | fault c =>
    rw [assign_apply_of_fault htarget, assign_apply_of_fault (hmapped.trans htarget)]
    rfl

end Assign

end SequenceMachine.Sequence
