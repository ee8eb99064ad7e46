import SequenceMachine.Proofs.Sequence.Reading

namespace SequenceMachine.Sequence

variable {α : Type} {s : Sequence α} {a b c left right : Int} {i j n : Nat}

/-- The slices from `a` to `b` and from `b` to `c`, one behind the other, hold the elements of the slice
from `a` to `c`. -/
def JoinsAt (s : Sequence α) (a b c : Int) : Prop :=
  ∃ front rear whole, (s.slice a b : Outcome Error (Sequence α)) = .ok front ∧
    (s.slice b c : Outcome Error (Sequence α)) = .ok rear ∧
    (s.slice a c : Outcome Error (Sequence α)) = .ok whole ∧
    whole.elements = front.elements ++ rear.elements

/-- Every slice of the slice from `a` to `c` is the slice of the sequence itself whose bounds are counted
from `start`. -/
def NestsFrom (s : Sequence α) (start a c : Int) : Prop :=
  ∃ whole, (s.slice a c : Outcome Error (Sequence α)) = .ok whole ∧
    ∀ i j : Nat, i ≤ j → j ≤ s.sliceLength a c →
      ∃ part, (whole.slice i j : Outcome Error (Sequence α)) = .ok part ∧
        (s.slice (start + i) (start + j) : Outcome Error (Sequence α)) = .ok part

section Turns

/-- Reading up to a bound and then on from it reads the whole range. -/
theorem turns_between (s : Sequence α) (hab : a ≤ b) (hbc : b ≤ c) :
    s.turns a (b - a).toNat ++ s.turns b (c - b).toNat = s.turns a (c - a).toNat := by
  have hmiddle : a + ((b - a).toNat : Int) = b := by omega
  have hcount : (c - a).toNat = (b - a).toNat + (c - b).toNat := by omega
  rw [hcount, turns_add, hmiddle]

/-- To leave out the first elements is to read from further on. -/
theorem drop_turns (s : Sequence α) (start : Int) (h : i ≤ n) :
    (s.turns start n).drop i = s.turns (start + i) (n - i) := by
  by_cases hs : s.length = 0
  · simp only [turns_of_length_eq_zero s _ hs, List.drop_nil]
  · have hfirst : (s.turns start i).length = i := length_turns s start hs i
    have hsplit : s.turns start n = s.turns start i ++ s.turns (start + i) (n - i) := by
      rw [← turns_add, Nat.add_sub_cancel' h]
    rw [hsplit, List.drop_left' hfirst]

theorem drop_take_turns (s : Sequence α) (start : Int) (hij : i ≤ j) (hj : j ≤ n) :
    ((s.turns start n).take j).drop i = s.turns (start + i) (j - i) := by
  rw [take_turns s start hj, drop_turns s start hij]

end Turns

section Range
variable (buffer : List α) {p q r : Nat}

theorem drop_take_append (hpq : p ≤ q) (hqr : q ≤ r) :
    (buffer.take q).drop p ++ (buffer.take r).drop q = (buffer.take r).drop p := by
  have hmiddle : (buffer.drop p).drop (q - p) = buffer.drop q := by
    rw [List.drop_drop, Nat.add_sub_cancel' hpq]
  have hcount : r - p = (q - p) + (r - q) := by omega
  rw [List.drop_take, List.drop_take, List.drop_take, hcount, List.take_add, hmiddle]

theorem drop_take_drop_take (hj : j ≤ r - p) :
    (((buffer.take r).drop p).take j).drop i = (buffer.take (p + j)).drop (p + i) := by
  have hinner : ((buffer.take r).drop p).take j = (buffer.take (p + j)).drop p := by
    rw [List.drop_take, List.take_take, Nat.min_eq_left hj, List.drop_take, Nat.add_sub_cancel_left]
  rw [hinner, List.drop_drop]

end Range

section Cyclic
variable (hmode : s.mode = .cyclic) (hs : (s.length : Int) ≤ Index.greatest)
  (hspan : s.sliceLength a c ≤ Size.capacity)
include hmode hs hspan

/-- A range can be read if it is no longer than one whose slice can be held. -/
theorem slice_cyclic_within (hle : (right - left).toNat ≤ (c - a).toNat) :
    (s.slice left right : Outcome Error (Sequence α)) =
      .ok (ofList (s.turns left (right - left).toNat)) := by
  by_cases hzero : s.length = 0
  · rw [slice_of_length_eq_zero hzero, turns_of_length_eq_zero s left hzero]
  · have hcount := sliceLength_cyclic hmode hzero hspan
    exact slice_cyclic hmode hs (by omega)

/-- In a cyclic sequence adjoining slices join wherever they meet. -/
theorem joinsAt_cyclic (hab : a ≤ b) (hbc : b ≤ c) : s.JoinsAt a b c := by
  have hfront : (b - a).toNat ≤ (c - a).toNat := by omega
  have hrear : (c - b).toNat ≤ (c - a).toNat := by omega
  exact ⟨_, _, _, slice_cyclic_within hmode hs hspan hfront, slice_cyclic_within hmode hs hspan hrear,
    slice_cyclic_within hmode hs hspan (Nat.le_refl _), (turns_between s hab hbc).symm⟩

/-- Slices of a cyclic slice are counted from its left bound. -/
theorem nestsFrom_cyclic : s.NestsFrom a a c := by
  let whole := ofList (s.turns a (c - a).toNat)
  have hwhole : (s.slice a c : Outcome Error (Sequence α)) = .ok whole :=
    slice_cyclic_within hmode hs hspan (Nat.le_refl _)
  have hlength : whole.length = s.sliceLength a c := length_of_slice_eq_ok hwhole
  have hsmall := Index.le_greatest_of_le_capacity (hlength ▸ hspan)
  refine ⟨whole, hwhole, ?_⟩
  intro i j hij hj
  have hcount : j ≤ (c - a).toNat := by
    by_cases hzero : s.length = 0
    · rw [sliceLength_of_length_eq_zero hzero] at hj
      omega
    · rwa [sliceLength_cyclic hmode hzero hspan] at hj
  have hinner : (whole.slice i j : Outcome Error (Sequence α)) =
      .ok (ofList (s.turns (a + i) (j - i))) := by
    have hrange := slice_bounded_natCast (ε := Error) (s := whole) rfl hsmall hij (by omega)
    rwa [show whole.elements = s.turns a (c - a).toNat from rfl, drop_take_turns s a hij hcount] at hrange
  have houter : (s.slice (a + i) (a + j) : Outcome Error (Sequence α)) =
      .ok (ofList (s.turns (a + i) (j - i))) := by
    have hspan' : (a + (j : Int) - (a + i)).toNat = j - i := by omega
    rw [slice_cyclic_within hmode hs hspan (by omega), hspan']
  exact ⟨_, hinner, houter⟩

end Cyclic

section Bounded
variable (hmode : s.mode = .bounded)
include hmode

/-- In a bounded sequence adjoining slices join if their clamped bounds are in order. -/
theorem joinsAt_bounded (hab : Index.clamp a s.length ≤ Index.clamp b s.length)
    (hbc : Index.clamp b s.length ≤ Index.clamp c s.length) : s.JoinsAt a b c :=
  ⟨_, _, _, slice_bounded hmode a b, slice_bounded hmode b c, slice_bounded hmode a c,
    (drop_take_append s.elements hab hbc).symm⟩

/-- Slices of a bounded slice are counted from its clamped left bound. -/
theorem nestsFrom_bounded (hs : (s.length : Int) ≤ Index.greatest) (a c : Int) :
    s.NestsFrom (Index.clamp a s.length) a c := by
  let p := Index.clamp a s.length
  let r := Index.clamp c s.length
  let whole := ofList ((s.elements.take r).drop p)
  have hwhole : (s.slice a c : Outcome Error (Sequence α)) = .ok whole := slice_bounded hmode a c
  have hlength : whole.length = s.sliceLength a c := length_of_slice_eq_ok hwhole
  have hcount : s.sliceLength a c = r - p := sliceLength_bounded hmode
  have hp : p ≤ s.length := Index.clamp_le a s.length
  have hr : r ≤ s.length := Index.clamp_le c s.length
  refine ⟨whole, hwhole, ?_⟩
  intro i j hij hj
  -- If the bounds are inverted the slice is empty, and its only range is the one at `p`.
  have hinner : (whole.slice i j : Outcome Error (Sequence α)) =
      .ok (ofList ((s.elements.take (p + j)).drop (p + i))) := by
    have hrange := slice_bounded_natCast (ε := Error) (s := whole) rfl (by omega) hij (by omega)
    rwa [show whole.elements = (s.elements.take r).drop p from rfl,
      drop_take_drop_take s.elements (by omega)] at hrange
  have houter : (s.slice ((p : Int) + i) ((p : Int) + j) : Outcome Error (Sequence α)) =
      .ok (ofList ((s.elements.take (p + j)).drop (p + i))) := by
    rw [← Int.natCast_add, ← Int.natCast_add]
    exact slice_bounded_natCast hmode hs (by omega) (by omega)
  exact ⟨_, hinner, houter⟩

end Bounded

/-- Slices compose. In a cyclic sequence, empty or not, the slices of two ranges that adjoin join into the
slice of both, and a slice of a slice is a slice of the sequence from the left bound of the outer one on,
wherever the outer slice can be held. In a bounded sequence the same holds of ranges whose clamped bounds
are in order, and nested slices are counted from the clamped left bound. -/
theorem slices_compose (hs : (s.length : Int) ≤ Index.greatest) (a c : Int) :
    (s.mode = .cyclic → s.sliceLength a c ≤ Size.capacity →
      (∀ b, a ≤ b → b ≤ c → s.JoinsAt a b c) ∧ s.NestsFrom a a c) ∧
    (s.mode = .bounded →
      (∀ b, Index.clamp a s.length ≤ Index.clamp b s.length →
        Index.clamp b s.length ≤ Index.clamp c s.length → s.JoinsAt a b c) ∧
      s.NestsFrom (Index.clamp a s.length) a c) := by
  constructor
  · intro hmode hspan
    have hjoins : ∀ b, a ≤ b → b ≤ c → s.JoinsAt a b c := by
      intro b hab hbc
      exact joinsAt_cyclic hmode hs hspan hab hbc
    exact ⟨hjoins, nestsFrom_cyclic hmode hs hspan⟩
  · intro hmode
    have hjoins : ∀ b, Index.clamp a s.length ≤ Index.clamp b s.length →
        Index.clamp b s.length ≤ Index.clamp c s.length → s.JoinsAt a b c := by
      intro b hab hbc
      exact joinsAt_bounded hmode hab hbc
    exact ⟨hjoins, nestsFrom_bounded hmode hs a c⟩

/-- Ranges of a cyclic sequence that meet in its second turn, a slice within one over three turns, and a
bounded sequence that is cut where a negative index is clamped. -/
theorem slices_compose_over_turns :
    let s : Sequence Nat := ⟨[0, 1, 2], .cyclic⟩
    let t : Sequence Nat := ⟨[0, 1, 2, 3], .bounded⟩
    (s.length : Int) ≤ Index.greatest ∧ s.sliceLength (-4) 4 ≤ Size.capacity ∧
      (∃ front rear, (s.slice (-4) 1 : Outcome Error (Sequence Nat)) = .ok front ∧
        (s.slice 1 4 : Outcome Error (Sequence Nat)) = .ok rear ∧
        [2, 0, 1, 2, 0, 1, 2, 0] = front.elements ++ rear.elements) ∧
      (s.slice (-4 + 2) (-4 + 7) : Outcome Error (Sequence Nat)) =
        (ofList [2, 0, 1, 2, 0, 1, 2, 0]).slice 2 7 ∧
      t.JoinsAt (-9) (-2) 9 := by
  intro s t
  have hs : (s.length : Int) ≤ Index.greatest := by decide
  have hspan : s.sliceLength (-4) 4 ≤ Size.capacity := by decide
  have hwhole : (s.slice (-4) 4 : Outcome Error (Sequence Nat)) =
      .ok (ofList [2, 0, 1, 2, 0, 1, 2, 0]) := by decide
  obtain ⟨hjoins, whole, hwhole', hnested⟩ := (slices_compose hs (-4) 4).1 rfl hspan
  have hbounded := ((slices_compose (s := t) (by decide) (-9) 9).2 rfl).1 (-2) (by decide) (by decide)
  obtain rfl := Outcome.ok.inj (hwhole.symm.trans hwhole')
  refine ⟨hs, hspan, ?_, ?_, hbounded⟩
  · obtain ⟨front, rear, joined, hfront, hrear, hjoined, helements⟩ :=
      hjoins 1 (by decide) (by decide)
    obtain rfl := Outcome.ok.inj (hwhole.symm.trans hjoined)
    exact ⟨front, rear, hfront, hrear, helements⟩
  · obtain ⟨part, hinner, houter⟩ := hnested 2 7 (by decide) (by decide)
    exact houter.trans hinner.symm

end SequenceMachine.Sequence
