import SequenceMachine.Proofs.Sequence.Faultless

namespace SequenceMachine.Sequence

variable {α : Type} {s : Sequence α} {left right : Int} {predicted : Outcome Error Nat}

structure Foretells (predicted : Outcome Error Nat) (r : Result Error Event (Sequence α) Unit) : Prop where
  error_iff : ∀ e, predicted = .error e ↔ r.outcome = .error e
  ok_iff : ∀ n, predicted = .ok n ↔ r.outcome = .ok () ∧ r.state.length = n

theorem foretells_of_eq {x : Edit α Unit} (h : predicted = length <$> Action.stateAfter x s) :
    Foretells predicted (x s) := by
  unfold Action.stateAfter at h
  constructor
  · intro e
    rw [h, Outcome.map_eq_error_iff, Outcome.map_eq_error_iff]
  · intro n
    rw [h, Outcome.map_eq_ok_iff]
    constructor
    · rintro ⟨t, ht, hn⟩
      obtain ⟨u, hok, rfl⟩ := Outcome.map_eq_ok_iff.mp ht
      exact ⟨hok, hn⟩
    · rintro ⟨hok, hn⟩
      exact ⟨(x s).state, Outcome.map_eq_ok_iff.mpr ⟨(), hok, rfl⟩, hn⟩

/-- What is written to the target of an assignment has the length that the target would have. -/
theorem length_stateAfter_assign (source : List α) (s : Sequence α) :
    length <$> Action.stateAfter (assign left right source) s =
      (fun found => found.lengthAfter s.length source.length) <$> s.target left right source.length := by
  unfold Action.stateAfter
  cases hfound : s.target left right source.length with
  | ok found =>
    have hlength : (found.write source s.elements).length = found.lengthAfter s.length source.length :=
      Target.length_write (fits_of_target_eq_ok hfound)
    rw [assign_apply_of_target hfound, Outcome.map_ok, Outcome.map_ok, Outcome.map_ok, ← hlength]
    rfl
  | error e =>
    rw [assign_apply_of_error hfound]
    rfl
  | fault c =>
    rw [assign_apply_of_fault hfound]
    rfl

/-- The length is predicted where the assignment succeeds, and otherwise its error. -/
theorem assignedLength_eq_length_stateAfter {source : List α}
    (hsum : s.length + source.length ≤ Size.max) :
    s.assignedLength left right source.length =
      length <$> Action.stateAfter (assign left right source) s := by
  rw [length_stateAfter_assign, assignedLength_eq_map_target hsum]

theorem stateAfter_assignSelf (left right : Int) (s : Sequence α) :
    Action.stateAfter (assignSelf left right) s = Action.stateAfter (assign left right s.elements) s := by
  obtain ⟨houtcome, hstate⟩ := Prod.mk.inj (ending_assignSelf left right s)
  rw [Action.stateAfter, Action.stateAfter, houtcome, hstate]

/-- The predicted length foretells the assignment, for all bounds: it is refused exactly where the
assignment is, and for the same reason, and otherwise the assignment succeeds and leaves that length. The
same holds of an assignment of the sequence to itself, with its own length as that of the source. Up to
the largest index there is always a length or a reason. -/
theorem assignedLength_foretells (s : Sequence α) (left right : Int) :
    (∀ source : List α, s.length + source.length ≤ Size.max →
      let predicted := s.assignedLength left right source.length
      Foretells predicted (assign left right source s) ∧
        ((s.length : Int) ≤ Index.greatest → (∃ n, predicted = .ok n) ∨ ∃ e, predicted = .error e)) ∧
    (s.length + s.length ≤ Size.max →
      Foretells (s.assignedLength left right s.length) (assignSelf left right s)) := by
  constructor
  · intro source hsum predicted
    refine ⟨foretells_of_eq (assignedLength_eq_length_stateAfter hsum), ?_⟩
    intro hs
    exact (faultless_assignedLength hs left right hsum).answers_or_fails
  · intro hsum
    apply foretells_of_eq
    rw [stateAfter_assignSelf]
    exact assignedLength_eq_length_stateAfter hsum

/-- A cyclic sequence of length 4. Two elements across the end keep its length, one is refused, and the
sequence itself doubles it in an inverted range. -/
theorem assignedLength_foretells_across_end :
    let s : Sequence Nat := ⟨[0, 1, 2, 3], .cyclic⟩
    s.length + [8, 9].length ≤ Size.max ∧ s.length + [8].length ≤ Size.max ∧
      s.length + s.length ≤ Size.max ∧
      ((assign 3 5 [8, 9] s).outcome = .ok () ∧ (assign 3 5 [8, 9] s).state.length = 4) ∧
      (assign 3 5 [8] s).outcome = .error (.bridgeSize 2 1) ∧
      ((assignSelf 6 2 s).outcome = .ok () ∧ (assignSelf 6 2 s).state.length = 8) := by
  intro s
  have hfilled : s.length + [8, 9].length ≤ Size.max := by decide
  have hshort : s.length + [8].length ≤ Size.max := by decide
  have hself : s.length + s.length ≤ Size.max := by decide
  have hforetells := (assignedLength_foretells s 3 5).1
  refine ⟨hfilled, hshort, hself, ?_, ?_, ?_⟩
  · exact ((hforetells [8, 9] hfilled).1.ok_iff 4).mp (by decide)
  · exact ((hforetells [8] hshort).1.error_iff _).mp (by decide)
  · exact (((assignedLength_foretells s 6 2).2 hself).ok_iff 8).mp (by decide)

end SequenceMachine.Sequence
