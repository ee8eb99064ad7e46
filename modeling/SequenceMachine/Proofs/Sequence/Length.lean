import SequenceMachine.Proofs.Sequence.Atomic

namespace SequenceMachine.Sequence

variable {α ε : Type} {s t : Sequence α} {left right : Int}

/-- A slice has the length that is found without copying. -/
theorem length_of_slice_eq_ok (h : (s.slice left right : Outcome ε (Sequence α)) = .ok t) :
    t.length = s.sliceLength left right := by
  unfold slice at h
  unfold sliceLength
  by_cases hempty : s.isEmpty = true
  · rw [if_pos hempty] at h ⊢
    obtain rfl := Outcome.ok.inj h
    rfl
  · rw [if_neg hempty] at h ⊢
    cases hmode : s.mode with
    | cyclic =>
      simp only [hmode] at h ⊢
      split at h
      · next hle =>
        obtain rfl := Outcome.ok.inj h
        rw [if_pos hle]
        rfl
      · next hlt =>
        obtain ⟨start, _, h⟩ := Outcome.bind_eq_ok_iff.mp h
        rw [if_neg hlt]
        split at h
        · -- Turns of a buffer that is not empty never run out.
          obtain rfl := Outcome.ok.inj h
          apply length_takeTurns
          intro hnil
          exact hempty (by simp [isEmpty, hnil])
        · cases h
    | bounded =>
      simp only [hmode] at h ⊢
      split at h
      · next hle =>
        obtain rfl := Outcome.ok.inj h
        exact (Nat.sub_eq_zero_of_le hle).symm
      · -- The copied range lies in the buffer.
        obtain ⟨copied, hcopied, h⟩ := Outcome.bind_eq_ok_iff.mp h
        obtain rfl := Outcome.ok.inj h
        unfold copyRange at hcopied
        split at hcopied
        · next hrange =>
          obtain rfl := Outcome.ok.inj hcopied
          have hstop : Index.clamp right s.length ≤ s.elements.length := hrange.2
          change ((s.elements.take (Index.clamp right s.length)).drop
            (Index.clamp left s.length)).length = _
          rw [List.length_drop, List.length_take, Nat.min_eq_left hstop]
        · cases hcopied

/-- The predicted length is that which the target would have, and without a target it is refused as the
target is. -/
theorem assignedLength_eq_map_target {n : Nat} (hsum : s.length + n ≤ Size.max) :
    s.assignedLength left right n =
      (fun found => found.lengthAfter s.length n) <$> s.target left right n := by
  unfold assignedLength
  cases hfound : s.target left right n with
  | ok found =>
    rw [Outcome.ok_bind, Outcome.map_ok]
    cases found with
    | contiguous start stop =>
      obtain ⟨hle, hstop⟩ : start ≤ stop ∧ stop ≤ s.length := fits_of_target_eq_ok hfound
      dsimp only [Target.lengthAfter]
      rw [Size.sub_eq_ok hle, Outcome.ok_bind, Size.sub_eq_ok (by omega), Outcome.ok_bind,
        Size.add_eq_ok (by omega)]
    | bridging start stop => rfl
  | error e => rfl
  | fault c => rfl

theorem eq_lengthAfter_of_assignedLength {found : Target} {n length : Nat}
    (hfound : s.target left right n = .ok found) (h : s.assignedLength left right n = .ok length) :
    length = found.lengthAfter s.length n := by
  unfold assignedLength at h
  rw [hfound, Outcome.ok_bind] at h
  cases found with
  | contiguous start stop =>
    simp only [Outcome.bind_eq_ok_iff] at h
    obtain ⟨replaced, hreplaced, kept, hkept, hsum⟩ := h
    obtain ⟨_, rfl⟩ := Size.le_and_eq_of_sub_eq_ok hreplaced
    obtain ⟨_, rfl⟩ := Size.le_and_eq_of_sub_eq_ok hkept
    exact Size.eq_of_add_eq_ok hsum
  | bridging start stop => exact (Outcome.ok.inj h).symm

/-- An assignment leads to the predicted length. -/
theorem length_of_stateAfter_assign {source : List α} {length : Nat}
    (hlength : s.assignedLength left right source.length = .ok length)
    (h : Action.stateAfter (assign left right source) s = .ok t) : t.length = length := by
  obtain ⟨found, hfound, rfl⟩ := exists_target_of_stateAfter_assign h
  rw [eq_lengthAfter_of_assignedLength hfound hlength]
  exact Target.length_write (fits_of_target_eq_ok hfound)

/-- An assignment for which a length is predicted is accepted, and gives the sequence that length. -/
theorem exists_stateAfter_of_assignedLength {source : List α} {length : Nat}
    (h : s.assignedLength left right source.length = .ok length) :
    ∃ t, Action.stateAfter (assign left right source) s = .ok t ∧ t.length = length := by
  obtain ⟨found, hfound, _⟩ := Outcome.bind_eq_ok_iff.mp h
  have hafter : Action.stateAfter (assign left right source) s =
      .ok { s with elements := found.write source s.elements } := by
    unfold Action.stateAfter
    rw [assign_apply_of_target hfound]
    rfl
  exact ⟨_, hafter, length_of_stateAfter_assign h hafter⟩

/-- The prediction is refused for the reason for which the assignment is. -/
theorem assignedLength_of_outcome_assign {source : List α} {e : Error}
    (h : (assign left right source s).outcome = .error e) :
    s.assignedLength left right source.length = .error e := by
  unfold assignedLength
  cases htarget : s.target left right source.length with
  | ok found =>
    rw [assign_apply_of_target htarget] at h
    cases h
  | error e' =>
    rw [assign_apply_of_error htarget] at h
    obtain rfl := Outcome.error.inj h
    rfl
  | fault c =>
    rw [assign_apply_of_fault htarget] at h
    cases h

theorem length_of_stateAfter_set {index : Int} {value : α}
    (h : Action.stateAfter (set index value) s = .ok t) : t.length = s.length := by
  obtain ⟨p, _, rfl⟩ := exists_position_of_stateAfter_set h
  exact List.length_set

end SequenceMachine.Sequence
