import SequenceMachine.Proofs.Faultless
import SequenceMachine.Proofs.Sequence.Length

namespace SequenceMachine

open Outcome (faultless_ok faultless_error faultless_ofOption faultless_of_eq_ok)

variable {α ε : Type}

/-- The sum of two lengths within the capacity is a size. -/
theorem Size.add_le_max {a b : Nat} (ha : a ≤ capacity) (hb : b ≤ capacity) : a + b ≤ max := by
  have hmax : capacity + capacity ≤ max := by decide
  omega

namespace Index

/-- Wrapping divides by the length, so there has to be an element. -/
theorem faultless_wrap (index : Int) {length : Nat} (h : length ≠ 0) :
    (wrap index length : Outcome ε Nat).Faultless :=
  faultless_of_eq_ok (wrap_eq_ok index h)

theorem faultless_element (index : Int) (length : Nat) (mode : Mode) :
    (element index length mode : Outcome ε (Option Nat)).Faultless := by
  unfold element
  cases mode with
  | bounded =>
    dsimp only
    split
    · exact faultless_ok _
    · exact faultless_ok _
  | cyclic =>
    dsimp only
    split
    · exact faultless_ok _
    · next hne => exact (faultless_wrap index hne).map some

end Index

namespace Sequence

variable {s : Sequence α} {left right : Int}

section Element
variable (s : Sequence α) (index : Int)

theorem faultless_position : (s.position index).Faultless := by
  refine (Index.faultless_element index s.length s.mode).bind fun found _ => ?_
  exact faultless_ofOption _ found

theorem faultless_get : (s.get index).Faultless := by
  refine (faultless_position s index).bind fun p hp => ?_
  exact faultless_of_eq_ok (read_eq_ok (lt_of_position_eq_ok hp))

theorem faultless_stateAfter_set (value : α) :
    (Action.stateAfter (set index value) s).Faultless := by
  have hposition := faultless_position s index
  unfold Action.stateAfter
  rw [set_apply]
  cases hp : s.position index with
  | ok p => exact faultless_ok _
  | error e => exact faultless_error e
  | fault c => exact absurd hp (hposition c)

end Element

theorem faultless_replicate {length : Nat} (h : length ≤ Size.capacity) (fill : α) (mode : Mode) :
    (replicate length fill mode : Outcome ε (Sequence α)).Faultless := by
  rw [replicate, if_pos h]
  exact faultless_ok _

/-- Only its length can make a slice fault. -/
theorem faultless_slice (h : s.sliceLength left right ≤ Size.capacity) :
    (s.slice left right : Outcome ε (Sequence α)).Faultless := by
  unfold slice
  unfold sliceLength at h
  split
  · exact faultless_ok _
  · next hnonempty =>
    rw [if_neg hnonempty] at h
    cases hmode : s.mode with
    | cyclic =>
      simp only [hmode] at h ⊢
      split
      · exact faultless_ok _
      · next hlt =>
        rw [if_neg hlt] at h
        have hne : s.length ≠ 0 := fun hzero => hnonempty (isEmpty_iff_length_eq_zero.mpr hzero)
        refine (Index.faultless_wrap left hne).bind fun start _ => ?_
        rw [if_pos h]
        exact faultless_ok _
    | bounded =>
      simp only
      split
      · exact faultless_ok _
      · next hlt =>
        have hstop := Index.clamp_le right s.length
        have hrange : Index.clamp left s.length ≤ Index.clamp right s.length := by omega
        have hcopied : (s.copyRange (Index.clamp left s.length) (Index.clamp right s.length) :
            Outcome ε (List α)).Faultless := by
          rw [copyRange, if_pos ⟨hrange, hstop⟩]
          exact faultless_ok _
        exact hcopied.bind fun copied _ => faultless_ok _

section Assign
variable (hs : (s.length : Int) ≤ Index.greatest) (left right : Int)
include hs

/-- No bounds make the target of an assignment fault. -/
theorem faultless_target (sourceLength : Nat) : (s.target left right sourceLength).Faultless := by
  cases hmode : s.mode with
  | bounded =>
    simp only [target, hmode]
    exact faultless_ok _
  | cyclic =>
    by_cases hempty : right ≤ left
    · rw [target_cyclic_of_le hmode hs hempty]
      exact faultless_ok _
    by_cases hturn : (s.length : Int) < right - left
    · rw [target_cyclic_of_lt hmode hturn]
      exact faultless_error _
    obtain ⟨span, rfl⟩ : ∃ span : Nat, right = left + span := ⟨(right - left).toNat, by omega⟩
    by_cases hend : Index.residue left s.length + span ≤ s.length
    · rw [target_cyclic_inside hmode hs (by omega) hend]
      exact faultless_ok _
    · rw [target_cyclic_across hmode hs (by omega) (by omega)]
      split
      · exact faultless_ok _
      · exact faultless_error _

/-- The length is predicted from the sum of both lengths, which has to be a size. -/
theorem faultless_assignedLength {sourceLength : Nat} (hsum : s.length + sourceLength ≤ Size.max) :
    (s.assignedLength left right sourceLength).Faultless := by
  rw [assignedLength_eq_map_target hsum]
  exact (faultless_target hs left right sourceLength).map _

theorem faultless_stateAfter_assign (source : List α) :
    (Action.stateAfter (assign left right source) s).Faultless := by
  have hfound := faultless_target hs left right source.length
  unfold Action.stateAfter
  cases htarget : s.target left right source.length with
  | ok found =>
    rw [assign_apply_of_target htarget]
    exact faultless_ok _
  | error e =>
    rw [assign_apply_of_error htarget]
    exact faultless_error e
  | fault c => exact absurd htarget (hfound c)

end Assign

end Sequence

end SequenceMachine
