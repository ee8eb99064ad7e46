import SequenceMachine.Proofs.Sequence.Position
import SequenceMachine.Proofs.Sequence.Turns

namespace SequenceMachine

/-- Below the largest size the number of positions between two bounds is their difference. -/
theorem Index.span_eq_toNat_of_lt {left right : Int} (hle : left ≤ right)
    (hspan : span left right < Size.max) : span left right = (right - left).toNat := by
  by_cases hmax : right - left ≤ Size.max
  · exact span_eq_toNat hle hmax
  · have hlargest : span left right = Size.max := by
      rw [span, Size.ofInt?, if_neg (by omega), Option.getD_none]
    omega

namespace Sequence

variable {α : Type} {s : Sequence α} {left right index : Int}

section Length

theorem sliceLength_of_length_eq_zero (hzero : s.length = 0) : s.sliceLength left right = 0 := by
  rw [sliceLength, if_pos (isEmpty_iff_length_eq_zero.mpr hzero)]

/-- A bounded slice reaches from one clamped bound to the other, and is empty where they are not in order.
-/
theorem sliceLength_bounded (hmode : s.mode = .bounded) :
    s.sliceLength left right = Index.clamp right s.length - Index.clamp left s.length := by
  by_cases hzero : s.length = 0
  · have hright := Index.clamp_le right s.length
    rw [sliceLength_of_length_eq_zero hzero]
    omega
  · have hnonempty : ¬ s.isEmpty = true := fun hempty => hzero (isEmpty_iff_length_eq_zero.mp hempty)
    rw [sliceLength, if_neg hnonempty, hmode]

/-- A slice that can be held has as many elements as its bounds are apart. -/
theorem sliceLength_cyclic (hmode : s.mode = .cyclic) (hne : s.length ≠ 0)
    (hspan : s.sliceLength left right ≤ Size.capacity) :
    s.sliceLength left right = (right - left).toNat := by
  have hnonempty : ¬ s.isEmpty = true := fun hempty => hne (isEmpty_iff_length_eq_zero.mp hempty)
  have hmax : Size.capacity < Size.max := by decide
  simp only [sliceLength, if_neg hnonempty, hmode] at hspan ⊢
  split at hspan
  · next hle =>
    rw [if_pos hle]
    omega
  · next hlt =>
    rw [if_neg hlt]
    exact Index.span_eq_toNat_of_lt (by omega) (by omega)

end Length

section Get
variable (hs : (s.length : Int) ≤ Index.greatest)
include hs

/-- What is read around the end of the buffer is found by single reads, in each of the turns. -/
theorem get_eq_getElem_turns (hmode : s.mode = .cyclic) (hne : s.length ≠ 0) {start : Int} {count j : Nat}
    (hj : j < (s.turns start count).length) : s.get (start + j) = .ok (s.turns start count)[j] := by
  have hcount : j < count := by rwa [length_turns s start hne] at hj
  apply get_eq_ok hs (not_misses_cyclic hmode hne _)
  rw [← getElem?_turns s start hne hcount, List.getElem?_eq_getElem hj]

/-- The position that an index from the beginning names is the index, in either mode. -/
theorem get_eq_getElem_range {start stop j : Nat}
    (hj : j < ((s.elements.take stop).drop start).length) :
    s.get ((start : Int) + j) = .ok ((s.elements.take stop).drop start)[j] := by
  have hrange := hj
  rw [List.length_drop, List.length_take] at hrange
  have hlt : start + j < s.length := by
    change start + j < s.elements.length
    omega
  have hindex : ¬ s.Misses ((start : Int) + j) := by
    rintro (hzero | ⟨_, hout⟩)
    · omega
    · exact hout ⟨by omega, by omega⟩
  apply get_eq_ok hs hindex
  rw [← Int.natCast_add, Index.residue_natCast hlt, List.getElem_drop, List.getElem_take]
  exact List.getElem?_eq_getElem hlt

end Get

/-- A slice is made unless a cyclic sequence is asked for more than can be held. -/
theorem exists_slice_eq_ofList (hs : (s.length : Int) ≤ Index.greatest)
    (hspan : s.mode = .cyclic → s.sliceLength left right ≤ Size.capacity) :
    ∃ elements, (s.slice left right : Outcome Error (Sequence α)) = .ok (ofList elements) := by
  cases hmode : s.mode with
  | bounded => exact ⟨_, slice_bounded hmode left right⟩
  | cyclic =>
    by_cases hzero : s.length = 0
    · exact ⟨_, slice_of_length_eq_zero hzero left right⟩
    · have hfits := hspan hmode
      rw [sliceLength_cyclic hmode hzero hfits] at hfits
      exact ⟨_, slice_cyclic hmode hs hfits⟩

/-- A slice is a bounded sequence of the predicted length, and agrees with single reads. From a cyclic
sequence that is not empty it holds as many elements as the bounds are apart, however many turns that
takes, each of them the one that its index names. From a bounded one it holds the elements between the
clamped bounds, and from an empty one none. A slice of a cyclic sequence must not be longer than what can
be held. -/
theorem slice_agrees (left right : Int) (hs : (s.length : Int) ≤ Index.greatest)
    (hspan : s.mode = .cyclic → s.sliceLength left right ≤ Size.capacity) :
    ∃ t, (s.slice left right : Outcome Error (Sequence α)) = .ok t ∧ t.mode = .bounded ∧
      t.length = s.sliceLength left right ∧
      (s.mode = .cyclic → s.length ≠ 0 →
        (s.sliceLength left right : Int) = max 0 (right - left) ∧
        ∀ j (hj : j < t.elements.length), s.get (left + j) = .ok t.elements[j]) ∧
      (s.mode = .bounded →
        let a := Index.clamp left s.length
        let e := Index.clamp right s.length
        (s.sliceLength left right : Int) = max 0 ((e : Int) - a) ∧
        ∀ j (hj : j < t.elements.length), s.get (a + j) = .ok t.elements[j]) ∧
      (s.length = 0 → s.sliceLength left right = 0) := by
  obtain ⟨elements, hslice⟩ := exists_slice_eq_ofList hs hspan
  refine ⟨ofList elements, hslice, rfl, length_of_slice_eq_ok hslice, ?_, ?_, ?_⟩
  · intro hmode hne
    have hcount := sliceLength_cyclic hmode hne (hspan hmode)
    have hturns := slice_cyclic (ε := Error) hmode hs (hcount ▸ hspan hmode)
    obtain rfl : elements = s.turns left (right - left).toNat :=
      congrArg Sequence.elements (Outcome.ok.inj (hslice.symm.trans hturns))
    exact ⟨by omega, fun j hj => get_eq_getElem_turns hs hmode hne hj⟩
  · intro hmode a e
    have hcount : s.sliceLength left right = e - a := sliceLength_bounded hmode
    have hrange := slice_bounded (ε := Error) hmode left right
    obtain rfl : elements = (s.elements.take e).drop a :=
      congrArg Sequence.elements (Outcome.ok.inj (hslice.symm.trans hrange))
    exact ⟨by omega, fun j hj => get_eq_getElem_range hs hj⟩
  · exact sliceLength_of_length_eq_zero

/-- More than two turns of a cyclic sequence from a negative index on, and a range of a bounded one whose
bounds are both outside. -/
theorem slice_agrees_over_turns :
    let s : Sequence Nat := ⟨[0, 1, 2], .cyclic⟩
    let b : Sequence Nat := ⟨[0, 1, 2], .bounded⟩
    (s.length : Int) ≤ Index.greatest ∧ s.sliceLength (-4) 4 ≤ Size.capacity ∧
      (∃ t, (s.slice (-4) 4 : Outcome Error (Sequence Nat)) = .ok t ∧ t.length = 8 ∧
        ∀ j (hj : j < t.elements.length), s.get (-4 + j) = .ok t.elements[j]) ∧
      ∃ t, (b.slice (-9) 9 : Outcome Error (Sequence Nat)) = .ok t ∧ t.length = 3 ∧
        ∀ j (hj : j < t.elements.length), b.get (0 + j) = .ok t.elements[j] := by
  intro s b
  have hs : (s.length : Int) ≤ Index.greatest := by decide
  have hb : (b.length : Int) ≤ Index.greatest := by decide
  have hspan : s.sliceLength (-4) 4 ≤ Size.capacity := by decide
  obtain ⟨t, hslice, _, hlength, hturns, _, _⟩ := slice_agrees (-4) 4 hs fun _ => hspan
  obtain ⟨u, hslice', _, hlength', _, hrange, _⟩ := slice_agrees (-9) 9 hb fun h => nomatch h
  refine ⟨hs, hspan, ⟨t, hslice, ?_, ?_⟩, ⟨u, hslice', ?_, ?_⟩⟩
  · rw [hlength]
    decide
  · exact (hturns rfl (by decide)).2
  · rw [hlength']
    decide
  · exact (hrange rfl).2

end Sequence

end SequenceMachine
