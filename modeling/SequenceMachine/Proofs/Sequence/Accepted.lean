import SequenceMachine.Proofs.Sequence.Atomic
import SequenceMachine.Proofs.Sequence.Turns

/-!
Assignments that a cyclic sequence accepts. From the start of the target on, one whole turn reads the
source and then the elements that were not replaced, in their order (`turns_of_accepted`). This is one
equation for targets that shrink, grow, keep their length or bridge the end of the buffer.
-/

namespace SequenceMachine.Sequence

variable {α : Type} {s t : Sequence α} {left right : Int} {source : List α}

theorem mode_of_ending_assign (h : (assign left right source s).ending = (.ok (), t)) :
    t.mode = s.mode := by
  have hstate : (assign left right source s).state = t := congrArg Prod.snd h
  rw [← hstate]
  exact mode_assign left right source s

section Write
variable {start count : Nat}

/-- What was written inside the buffer is read first, and then all that lies behind it. -/
theorem turns_write_contiguous (hend : start + count ≤ s.length)
    (ht : t.elements = (Target.contiguous start (start + count)).write source s.elements) :
    t.turns start t.length = source ++ s.turns (start + count) (s.length - count) := by
  have hbefore : (s.elements.take start).length = start :=
    List.length_take_of_le (Nat.le_trans (Nat.le_add_right _ _) hend)
  have hsplit : t.elements = s.elements.take start ++ (source ++ s.elements.drop (start + count)) := by
    rw [ht, Target.write, List.append_assoc]
  have hle : start ≤ t.length := by
    change start ≤ t.elements.length
    rw [hsplit, List.length_append, hbefore]
    exact Nat.le_add_right _ _
  have hrest : start + count + (s.length - count) - s.length = start := by omega
  have hread : s.turns (start + count) (s.length - count) =
      s.elements.drop (start + count) ++ s.elements.take start := by
    rw [← Int.natCast_add, turns_across hend (Nat.sub_le _ _) (by omega), hrest]
  rw [turns_whole hle, hsplit, List.drop_left' hbefore, List.take_left' hbefore, List.append_assoc,
    hread]

/-- What was written across the end is read first too, and then the stretch between its two parts. -/
theorem turns_write_bridging (hstart : start < s.length) (hle : count ≤ s.length)
    (hend : s.length < start + count) (hfill : source.length = count)
    (ht : t.elements =
      (Target.bridging start (start + count - s.length)).write source s.elements) :
    t.turns start t.length = source ++ s.turns (start + count) (s.length - count) := by
  let kept := (s.elements.take start).drop (start + count - s.length)
  have hbuffer : s.elements.length = s.length := rfl
  have hkept : kept.length = s.length - count := by
    rw [List.length_drop, List.length_take, hbuffer]
    omega
  have hbefore : (source.drop (s.length - start) ++ kept).length = start := by
    rw [List.length_append, List.length_drop, hkept]
    omega
  have hsplit : t.elements =
      source.drop (s.length - start) ++ kept ++ source.take (s.length - start) := ht
  have hlength : t.length = s.length := by
    change t.elements.length = s.length
    rw [hsplit, List.length_append, hbefore, List.length_take]
    omega
  -- What is kept is read from the end of the target on, which lies in the next turn.
  have hread : s.turns (start + count) (s.length - count) = kept := by
    have hposition : Index.residue (start + count) s.length = start + count - s.length := by
      rw [Index.residue_add_across hle (by rw [Index.residue_natCast hstart]; omega),
        Index.residue_natCast hstart]
    have hcount : s.length - count = start - (start + count - s.length) := by omega
    rw [← turns_residue, hposition, turns_inside (by omega), hcount, ← List.drop_take]
  calc
    t.turns start t.length = t.elements.drop start ++ t.elements.take start :=
      turns_whole (by omega)
    _ = source.take (s.length - start) ++ (source.drop (s.length - start) ++ kept) := by
      rw [hsplit, List.drop_left' hbefore, List.take_left' hbefore]
    _ = source ++ s.turns (start + count) (s.length - count) := by
      rw [← List.append_assoc, List.take_append_drop, hread]

end Write

section Cyclic
variable (hmode : s.mode = .cyclic) (hs : (s.length : Int) ≤ Index.greatest)
include hmode hs

/-- A cyclic range with a target has at most one turn. It stays in the buffer, or it crosses the end and
is filled exactly. -/
theorem target_cyclic_cases {found : Target}
    (h : s.target left right source.length = .ok found) :
    (right - left).toNat ≤ s.length ∧
    (Index.residue left s.length + (right - left).toNat ≤ s.length ∧
        found = .contiguous (Index.residue left s.length)
          (Index.residue left s.length + (right - left).toNat) ∨
      s.length < Index.residue left s.length + (right - left).toNat ∧
        source.length = (right - left).toNat ∧
        found = .bridging (Index.residue left s.length)
          (Index.residue left s.length + (right - left).toNat - s.length)) := by
  generalize hspan : (right - left).toNat = span
  by_cases hempty : right ≤ left
  · have hzero : span = 0 := by omega
    rw [target_cyclic_of_le hmode hs hempty] at h
    obtain rfl := Outcome.ok.inj h
    subst hzero
    exact ⟨Nat.zero_le _, .inl ⟨Index.residue_le left s.length, rfl⟩⟩
  · have hright : right = left + span := by omega
    have hle : span ≤ s.length := by
      apply Nat.le_of_not_lt
      intro hlt
      rw [target_cyclic_of_lt hmode (by omega)] at h
      cases h
    subst hright
    refine ⟨hle, ?_⟩
    by_cases hend : Index.residue left s.length + span ≤ s.length
    · rw [target_cyclic_inside hmode hs (by omega) hend] at h
      exact .inl ⟨hend, (Outcome.ok.inj h).symm⟩
    · rw [target_cyclic_across hmode hs hle (by omega)] at h
      split at h
      · next hfill => exact .inr ⟨by omega, hfill, (Outcome.ok.inj h).symm⟩
      · cases h

/-- One whole turn from the start of the target reads the source and then what was not replaced. -/
theorem turns_of_accepted (h : (assign left right source s).ending = (.ok (), t)) :
    t.turns (Index.residue left s.length) t.length =
      source ++ s.turns (Index.residue left s.length + (right - left).toNat)
        (s.length - (right - left).toNat) := by
  obtain ⟨found, hfound, ht⟩ := exists_target_of_stateAfter_assign (Action.stateAfter_eq_ok_of_ending h)
  have helements : t.elements = found.write source s.elements := congrArg elements ht
  obtain ⟨hle, ⟨hend, rfl⟩ | ⟨hend, hfill, rfl⟩⟩ := target_cyclic_cases hmode hs hfound
  · exact turns_write_contiguous hend helements
  · have hne : s.length ≠ 0 := by
      intro hzero
      simp only [hzero, Index.residue_zero_right] at hend hle
      omega
    exact turns_write_bridging (Index.residue_lt left hne) hle hend hfill helements

/-- An accepted assignment replaces as many elements as there are positions between the bounds. -/
theorem length_of_accepted (h : (assign left right source s).ending = (.ok (), t)) :
    (right - left).toNat ≤ s.length ∧ t.length + (right - left).toNat = s.length + source.length := by
  obtain ⟨found, hfound, ht⟩ := exists_target_of_stateAfter_assign (Action.stateAfter_eq_ok_of_ending h)
  have hlength : t.length = found.lengthAfter s.length source.length := by
    rw [ht]
    exact Target.length_write (fits_of_target_eq_ok hfound)
  obtain ⟨hle, ⟨hend, rfl⟩ | ⟨hend, hfill, rfl⟩⟩ := target_cyclic_cases hmode hs hfound
  · rw [Target.lengthAfter] at hlength
    exact ⟨hle, by omega⟩
  · rw [Target.lengthAfter] at hlength
    exact ⟨hle, by omega⟩

/-- A source that fills a range of at most one turn is accepted. -/
theorem exists_accepted_of_fill (hle : right - left ≤ s.length)
    (hfill : source.length = (right - left).toNat) :
    ∃ t, (assign left right source s).ending = (.ok (), t) := by
  by_cases hempty : right ≤ left
  · rw [assign_cyclic_of_le hmode hs hempty]
    exact ⟨_, rfl⟩
  · have hright : right = left + source.length := by omega
    rw [hright]
    by_cases hend : Index.residue left s.length + source.length ≤ s.length
    · rw [assign_cyclic_inside hmode hs (by omega) hend]
      exact ⟨_, rfl⟩
    · rw [assign_cyclic_across hmode hs (by omega) (by omega)]
      exact ⟨_, rfl⟩

/-- A source that fills its range is read in its place, and the rest of the turn is as before. -/
theorem turns_of_filled (hfill : source.length = (right - left).toNat)
    (h : (assign left right source s).ending = (.ok (), t)) :
    t.length = s.length ∧
    t.turns left t.length =
      source ++ s.turns (left + source.length) (s.length - source.length) := by
  obtain ⟨_, hlength⟩ := length_of_accepted hmode hs h
  have hsame : t.length = s.length := by omega
  refine ⟨hsame, ?_⟩
  calc
    t.turns left t.length = t.turns (Index.residue left s.length) t.length := by
      rw [← hsame, turns_residue]
    _ = source ++ s.turns (Index.residue left s.length + (right - left).toNat)
        (s.length - (right - left).toNat) := turns_of_accepted hmode hs h
    _ = source ++ s.turns (left + source.length) (s.length - source.length) := by
      rw [turns_residue_add, hfill]

end Cyclic

end SequenceMachine.Sequence
