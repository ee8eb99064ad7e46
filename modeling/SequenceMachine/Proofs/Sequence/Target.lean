import SequenceMachine.Proofs.Residue
import SequenceMachine.Sequence.Slice

namespace SequenceMachine.Sequence

variable {α : Type} {s : Sequence α} {left right : Int} {start stop sourceLength : Nat}

def Target.write (source buffer : List α) : Target → List α
  | .contiguous start stop => buffer.take start ++ source ++ buffer.drop stop
  | .bridging start stop =>
    source.drop (buffer.length - start) ++ (buffer.take start).drop stop
      ++ source.take (buffer.length - start)

def Target.event (sourceLength : Nat) : Target → Event
  | .contiguous start stop => .contiguous start stop sourceLength
  | .bridging start stop => .bridging start stop sourceLength

/-- A target lies in a buffer of `length` elements and, if it bridges the end, is filled exactly by
`sourceLength` elements. -/
def Target.Fits (length sourceLength : Nat) : Target → Prop
  | .contiguous start stop => start ≤ stop ∧ stop ≤ length
  | .bridging start stop => stop ≤ start ∧ start ≤ length ∧ stop + length - start = sourceLength

def Target.lengthAfter (length sourceLength : Nat) : Target → Nat
  | .contiguous start stop => length - (stop - start) + sourceLength
  | .bridging _ _ => length

/-- Where a target fits, the counted length is the one that writing to it leads to. -/
theorem Target.length_write {source buffer : List α} {t : Target}
    (h : t.Fits buffer.length source.length) :
    (t.write source buffer).length = t.lengthAfter buffer.length source.length := by
  cases t with
  | contiguous start stop =>
    obtain ⟨hle, hstop⟩ := h
    simp only [write, lengthAfter, List.length_append, List.length_take, List.length_drop]
    omega
  | bridging start stop =>
    obtain ⟨hle, hstart, hfill⟩ := h
    simp only [write, lengthAfter, List.length_append, List.length_take, List.length_drop]
    omega

/-- Every target that is found fits. -/
theorem fits_of_target_eq_ok {t : Target} (h : s.target left right sourceLength = .ok t) :
    t.Fits s.length sourceLength := by
  unfold target at h
  split at h
  · -- Clamped bounds lie in the buffer.
    obtain rfl := Outcome.ok.inj h
    have hstart := Index.clamp_le left s.length
    have hstop := Index.clamp_le right s.length
    exact ⟨by omega, by omega⟩
  · split at h
    · dsimp only at h
      split at h
      · obtain rfl := Outcome.ok.inj h
        exact ⟨Nat.le_refl 0, Nat.zero_le _⟩
      · obtain ⟨start, hstart, ht⟩ := Outcome.bind_eq_ok_iff.mp h
        obtain rfl := Outcome.ok.inj ht
        exact ⟨Nat.le_refl start, Nat.le_of_lt (Index.lt_of_wrap_eq_ok hstart)⟩
    · split at h
      · cases h
      · -- Wrapped bounds lie in the buffer, and the right one may stand for its end.
        obtain ⟨start, hstart, h⟩ := Outcome.bind_eq_ok_iff.mp h
        obtain ⟨wrapped, hwrapped, h⟩ := Outcome.bind_eq_ok_iff.mp h
        have hlt := Index.lt_of_wrap_eq_ok hstart
        have hlt' := Index.lt_of_wrap_eq_ok hwrapped
        dsimp only at h
        generalize hstop : (if wrapped = 0 then s.length else wrapped) = stop at h
        have hle : stop ≤ s.length := by
          split at hstop <;> omega
        split at h
        · obtain rfl := Outcome.ok.inj h
          exact ⟨by omega, hle⟩
        · obtain ⟨total, htotal, h⟩ := Outcome.bind_eq_ok_iff.mp h
          obtain ⟨expected, hexpected, h⟩ := Outcome.bind_eq_ok_iff.mp h
          split at h
          · -- The source was compared with what is between the two stretches.
            obtain rfl := Outcome.ok.inj h
            obtain rfl := Size.eq_of_add_eq_ok htotal
            obtain ⟨_, rfl⟩ := Size.le_and_eq_of_sub_eq_ok hexpected
            exact ⟨by omega, by omega, by omega⟩
          · cases h

section Cyclic
variable {span : Nat} (hmode : s.mode = .cyclic) (hs : (s.length : Int) ≤ Index.greatest)
include hmode

/-- An empty or inverted range is the empty one at the position of its left bound. -/
theorem target_cyclic_of_le (hs : (s.length : Int) ≤ Index.greatest) (h : right ≤ left) :
    s.target left right sourceLength =
      .ok (.contiguous (Index.residue left s.length) (Index.residue left s.length)) := by
  simp only [target, hmode, h, ↓reduceIte]
  split
  · next hzero => simp [hzero]
  · next hne => simp [Index.wrap_eq_residue left hne hs]

/-- A range of more than one turn has no target. -/
theorem target_cyclic_of_lt (h : (s.length : Int) < right - left) :
    s.target left right sourceLength = .error (.overWrapped left right s.length) := by
  have hlt : ¬ right ≤ left := by omega
  have hover : left + s.length < right := by omega
  simp only [target, hmode, hlt, hover, ↓reduceIte]

include hs

/-- A range that stays in the buffer is one stretch of it, for any source. -/
theorem target_cyclic_inside (hpos : 0 < span) (hend : Index.residue left s.length + span ≤ s.length) :
    s.target left (left + span) sourceLength =
      .ok (.contiguous (Index.residue left s.length) (Index.residue left s.length + span)) := by
  have hne : s.length ≠ 0 := by omega
  have hlt : ¬ left + (span : Int) ≤ left := by omega
  have hover : ¬ left + s.length < left + (span : Int) := by omega
  -- The right bound wraps to 0 exactly if the range stops at the end of the buffer.
  have hstop : (if Index.residue (left + span) s.length = 0 then s.length
      else Index.residue (left + span) s.length) = Index.residue left s.length + span := by
    rcases Nat.lt_or_eq_of_le hend with hinside | hatEnd
    · rw [Index.residue_add_inside hinside, if_neg (by omega)]
    · rw [Index.residue_add_atEnd hatEnd, if_pos rfl, hatEnd]
  simp only [target, hmode, hlt, hover, ↓reduceIte, Index.wrap_eq_residue _ hne hs, Outcome.ok_bind]
  rw [hstop, if_pos (by omega)]
  rfl

/-- A range of at most one turn that crosses the end of the buffer has to be filled exactly. -/
theorem target_cyclic_across (hle : span ≤ s.length)
    (hend : s.length < Index.residue left s.length + span) :
    s.target left (left + span) sourceLength =
      if sourceLength = span then
        .ok (.bridging (Index.residue left s.length) (Index.residue left s.length + span - s.length))
      else .error (.bridgeSize span sourceLength) := by
  have hne : s.length ≠ 0 := by
    intro hzero
    simp only [hzero, Index.residue_zero_right] at hend
    omega
  have hlast := Index.residue_lt left hne
  have hlt : ¬ left + (span : Int) ≤ left := by omega
  have hover : ¬ left + s.length < left + (span : Int) := by omega
  have hstop : (if Index.residue (left + span) s.length = 0 then s.length
      else Index.residue (left + span) s.length) =
      Index.residue left s.length + span - s.length := by
    rw [Index.residue_add_across hle hend, if_neg (by omega)]
  have hsum : Index.residue left s.length + span - s.length + s.length ≤ Size.max := by
    unfold Size.max
    unfold Index.greatest at hs
    omega
  have hspan : Index.residue left s.length + span - s.length + s.length -
      Index.residue left s.length = span := by omega
  simp only [target, hmode, hlt, hover, ↓reduceIte, Index.wrap_eq_residue _ hne hs, Outcome.ok_bind]
  rw [hstop, if_neg (by omega), Size.add_eq_ok hsum, Outcome.ok_bind, Size.sub_eq_ok (by omega),
    Outcome.ok_bind, hspan]
  rfl

end Cyclic

section Assign
variable {source : List α}

theorem overwriteAcrossEnd_apply (hle : stop ≤ start) (hstart : start ≤ s.length)
    (hfill : stop + s.length - start = source.length) :
    overwriteAcrossEnd start stop source s =
      ⟨.ok (), { s with elements := (Target.bridging start stop).write source s.elements }, []⟩ := by
  simp only [overwriteAcrossEnd, Action.update, hle, hstart, hfill, and_self, ↓reduceIte]
  rfl

/-- An assignment that has a target is carried out and makes the target known. -/
theorem assign_apply_of_target {t : Target} (h : s.target left right source.length = .ok t) :
    assign left right source s =
      ⟨.ok (), { s with elements := t.write source s.elements }, [t.event source.length]⟩ := by
  have hfits := fits_of_target_eq_ok h
  have hfound : Action.logError (Action.ofOutcome (s.target left right source.length))
      (Event.refused left right s.length source.length) s = ⟨.ok t, s, []⟩ := by
    simp [Action.logError, h]
  unfold assign
  rw [Action.bind_apply_of_ok (Action.state_apply s), Action.bind_apply_of_ok hfound]
  cases t with
  | contiguous start stop =>
    simp [Action.bind_apply, splice_apply source hfits.1 hfits.2, Target.write, Target.event]
  | bridging start stop =>
    obtain ⟨hle, hstart, hfill⟩ := hfits
    simp [Action.bind_apply, overwriteAcrossEnd_apply hle hstart hfill, Target.event]

/-- Without a target the assignment is refused before anything is written. -/
theorem assign_apply_of_error {e : Error} (h : s.target left right source.length = .error e) :
    assign left right source s =
      ⟨.error e, s, [.refused left right s.length source.length e]⟩ := by
  have hfound : Action.logError (Action.ofOutcome (s.target left right source.length))
      (Event.refused left right s.length source.length) s =
      ⟨.error e, s, [.refused left right s.length source.length e]⟩ := by
    simp [Action.logError, h]
  unfold assign
  rw [Action.bind_apply_of_ok (Action.state_apply s), Action.bind_apply_of_error hfound]
  rfl

theorem assign_apply_of_fault {c : Fault} (h : s.target left right source.length = .fault c) :
    assign left right source s = ⟨.fault c, s, []⟩ := by
  have hfound : Action.logError (Action.ofOutcome (s.target left right source.length))
      (Event.refused left right s.length source.length) s = ⟨.fault c, s, []⟩ := by
    simp [Action.logError, h]
  unfold assign
  rw [Action.bind_apply_of_ok (Action.state_apply s), Action.bind_apply_of_fault hfound]
  rfl

end Assign

end SequenceMachine.Sequence
