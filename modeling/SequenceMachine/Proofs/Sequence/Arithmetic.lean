import SequenceMachine.Proofs.Sequence.Length
import Mathlib.Data.Int.ModEq

namespace SequenceMachine

namespace Index

variable {ε : Type} {index left right : Int} {length : Nat}

theorem ofLength_le_greatest (length : Nat) : ofLength length ≤ greatest := by
  unfold ofLength
  omega

theorem ofLength_pos (h : length ≠ 0) : 0 < ofLength length := by
  unfold ofLength greatest
  omega

/-- A length counts as an index, however great it is. -/
theorem valid_ofLength (length : Nat) : Valid (ofLength length) :=
  ⟨Int.le_trans (by decide) (ofLength_nonneg length), ofLength_le_greatest length⟩

/-- A negative index is moved up, but not past the largest index. -/
theorem valid_add_ofLength (h : Valid index) (hneg : index < 0) (length : Nat) :
    Valid (index + ofLength length) := by
  have hlow := ofLength_nonneg length
  have hhigh := ofLength_le_greatest length
  obtain ⟨hleast, -⟩ := h
  exact ⟨by omega, by omega⟩

/-- Words of 64 bits add to the exact sum of what they hold if that is an index. -/
theorem toInt_add_words {a b : Int} (h : Valid (a + b)) :
    (Int64.ofInt a + Int64.ofInt b).toInt = a + b := by
  obtain ⟨hleast, hgreatest⟩ := h
  unfold least at hleast
  unfold greatest at hgreatest
  rw [← Int64.ofInt_add]
  exact Int64.toInt_ofInt_of_le (by omega) (by omega)

section Clamp

/-- A negative bound is counted from the end and stops at the beginning. -/
theorem natCast_clamp_of_neg (hneg : index < 0) (length : Nat) :
    (clamp index length : Int) = max 0 (index + ofLength length) := by
  rw [clamp, fromStart, if_pos hneg]
  split
  · omega
  · -- A negative index stays below the length.
    rw [if_neg (by omega)]
    omega

/-- Any other bound stops at the end. -/
theorem natCast_clamp_of_nonneg (hnonneg : 0 ≤ index) (length : Nat) :
    (clamp index length : Int) = if ofLength length ≤ index then (length : Int) else index := by
  have hfrom : fromStart index length = index := if_neg (by omega)
  rw [clamp, hfrom]
  split
  · -- The index is 0, where only an empty sequence ends.
    by_cases hempty : length = 0
    · subst hempty
      split <;> omega
    · have hpos := ofLength_pos hempty
      rw [if_neg (by omega)]
      omega
  · split
    · rfl
    · omega

theorem clamp_le_clamp_of_neg {i j : Int} (hle : i ≤ j) (hneg : j < 0) (length : Nat) :
    clamp i length ≤ clamp j length := by
  have hleft := natCast_clamp_of_neg (Int.lt_of_le_of_lt hle hneg) length
  have hright := natCast_clamp_of_neg hneg length
  omega

theorem clamp_le_clamp_of_nonneg {i j : Int} (hle : i ≤ j) (hnonneg : 0 ≤ i) (length : Nat) :
    clamp i length ≤ clamp j length := by
  have hleft := natCast_clamp_of_nonneg hnonneg length
  have hright := natCast_clamp_of_nonneg (Int.le_trans hnonneg hle) length
  have hlength := ofLength_le length
  split at hleft <;> split at hright <;> omega

end Clamp

/-- The position of a cyclic index is the one remainder of the index below the length. -/
theorem exists_wrap_eq_ok (index : Int) (h : length ≠ 0) :
    ∃ p : Nat, (wrap index length : Outcome ε Nat) = .ok p ∧ (p : Int) < ofLength length ∧
      (p : Int) ≡ index [ZMOD ofLength length] ∧
      ∀ q : Int, 0 ≤ q → q < ofLength length → q ≡ index [ZMOD ofLength length] → q = p := by
  have hpos := ofLength_pos h
  have hcast : ((index % ofLength length).toNat : Int) = index % ofLength length :=
    Int.toNat_of_nonneg (Int.emod_nonneg _ (Int.ne_of_gt hpos))
  refine ⟨_, wrap_eq_ok index h, ?_, ?_, ?_⟩
  · rw [hcast]
    exact Int.emod_lt_of_pos index hpos
  · rw [hcast]
    exact Int.mod_modEq index _
  · intro q hlow hhigh hmod
    rw [hcast, ← hmod, Int.emod_eq_of_lt hlow hhigh]

/-- Where an index names an element, clamping finds the same position. -/
theorem element_bounded_eq_clamp (index : Int) (length : Nat) :
    (element index length .bounded : Outcome ε (Option Nat)) =
      .ok (if -ofLength length ≤ index ∧ index < ofLength length then some (clamp index length)
        else none) := by
  have hrange : (0 ≤ fromStart index length ∧ fromStart index length < ofLength length) ↔
      -ofLength length ≤ index ∧ index < ofLength length := by
    unfold fromStart
    split <;> omega
  simp only [element, hrange]
  split
  · next hin =>
    have hclamp : (fromStart index length).toNat = clamp index length := by
      obtain ⟨hlow, hhigh⟩ := hrange.mpr hin
      rw [clamp]
      split
      · omega
      · rw [if_neg (by omega)]
    rw [hclamp, Outcome.pure_eq_ok]
  · rfl

theorem insertion_bounded_eq (index : Int) (length : Nat) :
    (insertion index length .bounded : Outcome ε (Option Nat)) =
      .ok (if -ofLength length ≤ index ∧ index ≤ ofLength length then
        some (if index < 0 then index + ofLength length else index).toNat else none) := by
  have hrange : (0 ≤ fromStart index length ∧ fromStart index length ≤ ofLength length) ↔
      -ofLength length ≤ index ∧ index ≤ ofLength length := by
    have hlow := ofLength_nonneg length
    unfold fromStart
    split <;> omega
  simp only [insertion, hrange]
  split
  · rfl
  · rfl

/-- No two indices are further apart than the largest size, so a span is exact. -/
theorem span_eq_sub (hleft : Valid left) (hright : Valid right) (h : left ≤ right) :
    Size.ofInt? (right - left) = some (span left right) ∧ (span left right : Int) = right - left := by
  obtain ⟨hleast, -⟩ := hleft
  obtain ⟨-, hgreatest⟩ := hright
  -- Indices are as many as sizes, so no two are further apart than the largest size.
  have hmax : greatest - least = (Size.max : Int) := by decide
  have hsize := Size.ofInt?_eq_some (n := right - left) (by omega) (by omega)
  rw [span, hsize, Option.getD_some]
  exact ⟨rfl, Int.toNat_of_nonneg (by omega)⟩

/-- What index arithmetic gives for an index and a length, told in exact integers. -/
structure Exact (ε : Type) (index : Int) (length : Nat) : Prop where
  valid_length : Valid (ofLength length)
  /-- The sum that a negative index is moved to is an index. -/
  valid_sum : index < 0 → Valid (index + ofLength length)
  /-- That sum is computed on words of 64 bits. -/
  sum_words : index < 0 →
    (Int64.ofInt index + Int64.ofInt (ofLength length)).toInt = index + ofLength length
  clamped : (clamp index length : Int) =
    if index < 0 then max 0 (index + ofLength length)
    else if ofLength length ≤ index then (length : Int) else index
  clamped_le : clamp index length ≤ length
  wrapped : length ≠ 0 → ∃ p : Nat, (wrap index length : Outcome ε Nat) = .ok p ∧
    (p : Int) < ofLength length ∧ (p : Int) ≡ index [ZMOD ofLength length] ∧
    ∀ q : Int, 0 ≤ q → q < ofLength length → q ≡ index [ZMOD ofLength length] → q = p
  element_bounded : (element index length .bounded : Outcome ε (Option Nat)) =
    .ok (if -ofLength length ≤ index ∧ index < ofLength length then some (clamp index length) else none)
  element_cyclic : (element index length .cyclic : Outcome ε (Option Nat)) = .ok none ↔ length = 0
  element_wrapped : length ≠ 0 → ∀ p, (wrap index length : Outcome ε Nat) = .ok p →
    (element index length .cyclic : Outcome ε (Option Nat)) = .ok (some p)
  insertion_bounded : (insertion index length .bounded : Outcome ε (Option Nat)) =
    .ok (if -ofLength length ≤ index ∧ index ≤ ofLength length then
      some (if index < 0 then index + ofLength length else index).toNat else none)

/-- Every index is treated exactly, for every length. -/
theorem exact_of_valid (h : Valid index) (length : Nat) : Exact ε index length where
  valid_length := valid_ofLength length
  valid_sum hneg := valid_add_ofLength h hneg length
  sum_words hneg := toInt_add_words (valid_add_ofLength h hneg length)
  clamped := by
    split
    · next hneg => exact natCast_clamp_of_neg hneg length
    · next hnonneg => exact natCast_clamp_of_nonneg (Int.not_lt.mp hnonneg) length
  clamped_le := clamp_le index length
  wrapped hne := exists_wrap_eq_ok index hne
  element_bounded := element_bounded_eq_clamp index length
  element_cyclic := by
    by_cases hempty : length = 0
    · simp [element, hempty]
    · simp [element, hempty, wrap_eq_ok index hempty]
  element_wrapped hne p hp := by
    rw [element, if_neg hne, hp, Outcome.map_ok]
  insertion_bounded := insertion_bounded_eq index length

end Index

namespace Sequence

variable {α ε : Type} {s : Sequence α} {left right : Int}

/-- The slices of a cyclic sequence that has an element are as long as their bounds are apart. -/
theorem sliceLength_eq_sub (hmode : s.mode = .cyclic) (hne : s.length ≠ 0)
    (hleft : Index.Valid left) (hright : Index.Valid right) (h : left < right) :
    (s.sliceLength left right : Int) = right - left := by
  have hnonempty : ¬ s.isEmpty = true := fun hempty => hne (isEmpty_iff_length_eq_zero.mp hempty)
  have hspan := (Index.span_eq_sub hleft hright (Int.le_of_lt h)).2
  simp only [sliceLength, if_neg hnonempty, hmode]
  rw [if_neg (Int.not_le.mpr h), hspan]

end Sequence

namespace Index

variable {ε α : Type}

/-- Index arithmetic is exact and stays in range for all indices and lengths. Clamping keeps the order
of indices of one sign, and the positions between two indices, which a slice of a cyclic sequence has,
are as many as the indices are apart. -/
theorem arithmetic_exact :
    (∀ index, Valid index → ∀ length, Exact ε index length) ∧
    (∀ length i j, i ≤ j → j < 0 ∨ 0 ≤ i → clamp i length ≤ clamp j length) ∧
    ∀ left right, Valid left → Valid right → left < right →
      Size.ofInt? (right - left) = some (span left right) ∧ (span left right : Int) = right - left ∧
      ∀ s : Sequence α, s.mode = .cyclic → s.length ≠ 0 →
        (s.sliceLength left right : Int) = right - left ∧
        ∀ t, (s.slice left right : Outcome ε (Sequence α)) = .ok t → (t.length : Int) = right - left := by
  refine ⟨fun index h length => exact_of_valid h length, ?_, ?_⟩
  · rintro length i j hle (hneg | hnonneg)
    · exact clamp_le_clamp_of_neg hle hneg length
    · exact clamp_le_clamp_of_nonneg hle hnonneg length
  · intro left right hleft hright hlt
    obtain ⟨hsize, hspan⟩ := span_eq_sub hleft hright (Int.le_of_lt hlt)
    refine ⟨hsize, hspan, fun s hmode hne => ?_⟩
    have hlength := Sequence.sliceLength_eq_sub hmode hne hleft hright hlt
    refine ⟨hlength, fun t ht => ?_⟩
    calc (t.length : Int) = s.sliceLength left right := by rw [Sequence.length_of_slice_eq_ok ht]
      _ = right - left := hlength

/-- The least index with the largest length, which counts as the greatest index, and the widest range,
whose bounds are as far apart as the largest size. -/
theorem arithmetic_exact_at_limits :
    Valid least ∧ Valid greatest ∧ least < greatest ∧
      Valid (least + ofLength Size.max) ∧
      (Int64.ofInt least + Int64.ofInt (ofLength Size.max)).toInt = -1 ∧
      (clamp least Size.max : Int) = 0 ∧ (clamp greatest Size.max : Int) = Size.max ∧
      clamp least Size.max ≤ clamp (-1) Size.max ∧
      (element least Size.max .bounded : Outcome Empty (Option Nat)) = .ok none ∧
      (element (-greatest) Size.max .bounded : Outcome Empty (Option Nat)) = .ok (some 0) ∧
      (span least greatest : Int) = Size.max := by
  have hleast : Valid least := by decide
  have hgreatest : Valid greatest := by decide
  have hlt : least < greatest := by decide
  obtain ⟨hexact, hordered, hspans⟩ := arithmetic_exact (ε := Empty) (α := Nat)
  have hlow := hexact least hleast Size.max
  have hhigh := hexact greatest hgreatest Size.max
  have hfirst := hexact (-greatest) (by decide) Size.max
  have hspan := (hspans least greatest hleast hgreatest hlt).2.1
  exact ⟨hleast, hgreatest, hlt, hlow.valid_sum (by decide), hlow.sum_words (by decide), hlow.clamped,
    hhigh.clamped, hordered Size.max least (-1) (by decide) (.inl (by decide)), hlow.element_bounded,
    hfirst.element_bounded, hspan⟩

end Index

end SequenceMachine
