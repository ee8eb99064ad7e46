import SequenceMachine.Proofs.Ending
import SequenceMachine.Proofs.Sequence.Assignment

namespace SequenceMachine.Sequence

variable {α : Type} {s t : Sequence α}

section Set
variable {index : Int} {value : α}

/-- A position that was found lies in the buffer. -/
theorem lt_of_position_eq_ok {index : Int} {p : Nat} (h : s.position index = .ok p) :
    p < s.length := by
  obtain ⟨found, hfound, hp⟩ := Outcome.bind_eq_ok_iff.mp h
  obtain rfl := Outcome.ofOption_eq_ok_iff.mp hp
  unfold Index.element at hfound
  cases hmode : s.mode with
  | bounded =>
    simp only [hmode] at hfound
    split at hfound
    · next hrange =>
      have hle := Index.ofLength_le s.length
      have hp := Option.some.inj (Outcome.ok.inj hfound)
      omega
    · cases hfound
  | cyclic =>
    simp only [hmode] at hfound
    split at hfound
    · cases hfound
    · obtain ⟨q, hwrap, hq⟩ := Outcome.map_eq_ok_iff.mp hfound
      obtain rfl := Option.some.inj hq
      exact Index.lt_of_wrap_eq_ok hwrap

theorem set_apply (index : Int) (value : α) (s : Sequence α) :
    set index value s = match s.position index with
      | .ok p => ⟨.ok (), { s with elements := s.elements.set p value }, []⟩
      | .error e => ⟨.error e, s, []⟩
      | .fault c => ⟨.fault c, s, []⟩ := by
  unfold set exchange
  rw [Action.bind_apply, Action.update]
  cases hp : s.position index with
  | ok p => simp [read_eq_ok (lt_of_position_eq_ok hp)]
  | error e => rfl
  | fault c => rfl

theorem atomic_exchange (index : Int) (value : α) : Action.Atomic (exchange index value) :=
  Action.atomic_update _

theorem atomic_set (index : Int) (value : α) : Action.Atomic (set index value) :=
  (atomic_exchange index value).bind_pure fun _ => ()

/-- What replacing an element leaves, if the index names one. -/
theorem exists_position_of_stateAfter_set (h : Action.stateAfter (set index value) s = .ok t) :
    ∃ p, s.position index = .ok p ∧ t = { s with elements := s.elements.set p value } := by
  unfold Action.stateAfter at h
  rw [set_apply] at h
  cases hp : s.position index with
  | ok p =>
    rw [hp] at h
    exact ⟨p, rfl, (Outcome.ok.inj h).symm⟩
  | error e =>
    rw [hp] at h
    cases h
  | fault c =>
    rw [hp] at h
    cases h

end Set

section Insert
variable {index : Int} {items : List α} {p : Nat}

theorem le_of_insertPosition_eq_ok (h : s.insertPosition index = .ok p) : p ≤ s.length := by
  obtain ⟨found, hfound, hp⟩ := Outcome.bind_eq_ok_iff.mp h
  obtain rfl := Outcome.ofOption_eq_ok_iff.mp hp
  unfold Index.insertion at hfound
  cases hmode : s.mode with
  | bounded =>
    simp only [hmode] at hfound
    split at hfound
    · next hrange =>
      have hle := Index.ofLength_le s.length
      have hp := Option.some.inj (Outcome.ok.inj hfound)
      omega
    · cases hfound
  | cyclic =>
    simp only [hmode] at hfound
    split at hfound
    · obtain rfl := Option.some.inj (Outcome.ok.inj hfound)
      exact Nat.zero_le _
    · obtain ⟨q, hwrap, hq⟩ := Outcome.map_eq_ok_iff.mp hfound
      obtain rfl := Option.some.inj hq
      exact Nat.le_of_lt (Index.lt_of_wrap_eq_ok hwrap)

theorem insert_apply (index : Int) (items : List α) (s : Sequence α) :
    insert index items s = match s.insertPosition index with
      | .ok p => ⟨.ok (), { s with elements := s.elements.take p ++ items ++ s.elements.drop p }, []⟩
      | .error e => ⟨.error e, s, []⟩
      | .fault c => ⟨.fault c, s, []⟩ := by
  unfold insert
  rw [Action.bind_apply_of_ok (Action.state_apply s)]
  cases hp : s.insertPosition index with
  | ok p =>
    have hsplice := splice_apply items (Nat.le_refl p) (le_of_insertPosition_eq_ok hp)
    simp [Action.bind_apply, hsplice]
  | error e => rfl
  | fault c => rfl

/-- An insertion that is refused leaves the sequence as it was. -/
theorem atomic_insert (index : Int) (items : List α) : Action.Atomic (insert index items) := by
  refine Action.reads_state.bind_atomic fun s => ?_
  exact (Action.reads_ofOutcome _).bind_atomic fun p => Action.atomic_update _

end Insert

section Delete
variable {first last : Int} {start stop : Nat} {e : Error}

/-- The first index is resolved before the last one, so its error is the one reported. -/
theorem delete_apply_of_first_error (h : s.position first = .error e) (last : Int) :
    delete first last s = ⟨.error e, s, []⟩ := by
  simp [delete, Action.bind_apply, h]

theorem delete_apply_of_last_error (hfirst : s.position first = .ok start)
    (h : s.position last = .error e) : delete first last s = ⟨.error e, s, []⟩ := by
  simp [delete, Action.bind_apply, hfirst, h]

section Found
variable (hfirst : s.position first = .ok start) (hlast : s.position last = .ok stop)
include hfirst hlast

theorem delete_apply_of_le (h : start ≤ stop) :
    delete first last s =
      ⟨.ok (), { s with elements := s.elements.take start ++ s.elements.drop (stop + 1) }, []⟩ := by
  have hstop := lt_of_position_eq_ok hlast
  have hsplice := splice_apply (s := s) [] (Nat.le_succ_of_le h) hstop
  simp [delete, Action.bind_apply, hfirst, hlast, h, hsplice]

/-- A range across the end of the buffer is deleted in two steps, neither of which can fail. -/
theorem delete_apply_cyclic (hmode : s.mode = .cyclic) (h : stop < start) :
    delete first last s =
      ⟨.ok (), { s with elements := (s.elements.take start).drop (stop + 1) }, []⟩ := by
  have hstart : start ≤ s.length := Nat.le_of_lt (lt_of_position_eq_ok hfirst)
  have hkept : (s.elements.take start).length = start := List.length_take_of_le hstart
  have htail : splice start s.length [] s =
      ⟨.ok (), { s with elements := s.elements.take start }, []⟩ := by
    have hnone : s.elements.drop s.length = [] := List.drop_length
    rw [splice_apply [] hstart (Nat.le_refl _), hnone, List.append_nil, List.append_nil]
  have hhead : splice 0 (stop + 1) [] { s with elements := s.elements.take start } =
      ⟨.ok (), { s with elements := (s.elements.take start).drop (stop + 1) }, []⟩ := by
    have hstop : stop + 1 ≤ (s.elements.take start).length := by omega
    exact splice_apply [] (Nat.zero_le _) hstop
  rw [hmode] at hhead
  simp [delete, Action.bind_apply, hfirst, hlast, Nat.not_le.mpr h, hmode, htail, hhead]

/-- A bounded sequence refuses a range whose resolved ends are not in order. -/
theorem delete_apply_bounded (hmode : s.mode = .bounded) (h : stop < start) :
    delete first last s = ⟨.error (.invertedRange first last s.length), s, []⟩ := by
  have hlt : ¬ start ≤ stop := by omega
  simp [delete, Action.bind_apply, hfirst, hlast, hlt, hmode]

end Found

end Delete

section Assign
variable {left right : Int} {source : List α}

/-- An assignment that is refused leaves the sequence as it was. -/
theorem atomic_assign (left right : Int) (source : List α) :
    Action.Atomic (assign left right source) := by
  intro s hfail
  exact state_assign_of_ne_ok (hfail ())

/-- What an assignment leaves, if it is not refused, was written to its target. -/
theorem exists_target_of_stateAfter_assign
    (h : Action.stateAfter (assign left right source) s = .ok t) :
    ∃ found, s.target left right source.length = .ok found ∧
      t = { s with elements := found.write source s.elements } := by
  unfold Action.stateAfter at h
  cases htarget : s.target left right source.length with
  | ok found =>
    rw [assign_apply_of_target htarget] at h
    exact ⟨found, rfl, (Outcome.ok.inj h).symm⟩
  | error e =>
    rw [assign_apply_of_error htarget] at h
    cases h
  | fault c =>
    rw [assign_apply_of_fault htarget] at h
    cases h

/-- A sequence is assigned to itself as a copy of it would be. -/
theorem ending_assignSelf (left right : Int) (s : Sequence α) :
    (assignSelf left right s).ending = (assign left right s.elements s).ending := by
  simp [assignSelf, Action.bind_apply]

end Assign

end SequenceMachine.Sequence
