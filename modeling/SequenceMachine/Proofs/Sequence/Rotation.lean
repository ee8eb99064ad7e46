import Mathlib.Data.List.Rotate
import SequenceMachine.Proofs.Sequence.Accepted
import SequenceMachine.Proofs.Sequence.Position

namespace SequenceMachine.Sequence

variable {α : Type} {s t : Sequence α} {k : Nat}

def rotate (k : Nat) (s : Sequence α) : Sequence α :=
  { s with elements := s.elements.drop k ++ s.elements.take k }

theorem elements_rotate (hk : k ≤ s.length) : (s.rotate k).elements = s.elements.rotate k :=
  (List.rotate_eq_drop_append_take hk).symm

@[simp] theorem mode_rotate : (s.rotate k).mode = s.mode := rfl

theorem length_rotate (hk : k ≤ s.length) : (s.rotate k).length = s.length := by
  change (s.rotate k).elements.length = s.elements.length
  rw [elements_rotate hk, List.length_rotate]

/-- Reading a rotated sequence is reading the sequence further on. -/
theorem turns_rotate (hk : k ≤ s.length) (start : Int) (count : Nat) :
    (s.rotate k).turns start count = s.turns (start + k) count := by
  have hlength := length_rotate hk
  by_cases hs : s.length = 0
  · rw [turns_of_length_eq_zero _ _ (hlength.trans hs), turns_of_length_eq_zero s _ hs]
  · have hs' : (s.rotate k).length ≠ 0 := by
      rw [hlength]
      exact hs
    apply List.ext_getElem?
    intro j
    by_cases hj : j < count
    · -- The element at a place of the rotated buffer stands `k` places further on in the buffer.
      have hplace : Index.residue (start + j) s.length < s.elements.length := Index.residue_lt _ hs
      have hshift : start + k + j = start + j + k := by omega
      rw [getElem?_turns _ _ hs' hj, getElem?_turns _ _ hs hj, hlength, elements_rotate hk,
        List.getElem?_rotate hplace, hshift, Index.residue_add _ k hs]
      rfl
    · rw [List.getElem?_eq_none (by rw [length_turns _ _ hs']; omega),
        List.getElem?_eq_none (by rw [length_turns _ _ hs]; omega)]

section Element
variable (hmode : s.mode = .cyclic) (hs : (s.length : Int) ≤ Index.greatest) (hne : s.length ≠ 0)
include hmode hs hne

/-- Each index names an element, the first one that is read from it on. -/
theorem exists_get_cyclic (index : Int) : ∃ a, s.get index = .ok a ∧ s.turns index 1 = [a] := by
  have hlt : Index.residue index s.length < s.elements.length := Index.residue_lt index hne
  refine ⟨s.elements[Index.residue index s.length], ?_, ?_⟩
  · exact get_eq_ok hs (not_misses_cyclic hmode hne index) (List.getElem?_eq_getElem hlt)
  · rw [← turns_residue, turns_inside hlt]
    exact List.take_one_drop_eq_of_lt_length hlt

/-- Replacing an element is assigning a single one to the range of its position. -/
theorem ending_set_cyclic (index : Int) (value : α) :
    (set index value s).ending = (assign index (index + 1) [value] s).ending := by
  have hlt : Index.residue index s.length < s.elements.length := Index.residue_lt index hne
  rw [← Int.natCast_one, assign_cyclic_inside hmode hs Nat.one_pos hlt, set_apply,
    position_of_not_misses hs (not_misses_cyclic hmode hne index)]
  simp only [Action.ending_mk, List.set_eq_take_append_cons_drop, if_pos hlt, List.append_assoc,
    List.singleton_append]

end Element

section Rotated
variable (hmode : s.mode = .cyclic) (hs : (s.length : Int) ≤ Index.greatest) (hk : k < s.length)
include hmode hs hk

/-- A read on a rotated sequence is a read further on. -/
theorem get_rotate (index : Int) : (s.rotate k).get index = s.get (index + k) := by
  have hlength := length_rotate (Nat.le_of_lt hk)
  obtain ⟨a, hget, hturn⟩ := exists_get_cyclic hmode hs (by omega) (index + k)
  obtain ⟨a', hget', hturn'⟩ :=
    exists_get_cyclic (s := s.rotate k) hmode (by rwa [hlength]) (by omega) index
  rw [turns_rotate (Nat.le_of_lt hk), hturn] at hturn'
  rw [hget, hget', List.singleton_inj.mp hturn']

theorem slice_rotate (left right : Int) :
    ((s.rotate k).slice left right : Outcome Error (Sequence α)) = s.slice (left + k) (right + k) := by
  have hlength := length_rotate (Nat.le_of_lt hk)
  by_cases hle : right ≤ left
  · rw [slice_cyclic_of_le (s := s.rotate k) hmode hle, slice_cyclic_of_le hmode (by omega)]
  · have hspan : Index.span (left + k) (right + k) = Index.span left right := by
      rw [Index.span, Index.span, Int.add_sub_add_right]
    rw [slice_cyclic_of_lt (s := s.rotate k) hmode (by rwa [hlength]) (by omega) (by omega),
      slice_cyclic_of_lt hmode hs (by omega) (by omega), hspan, turns_rotate (Nat.le_of_lt hk)]

/-- An assignment that keeps the length leaves a rotated sequence rotated, wherever the end of the buffer
is. -/
theorem ending_assign_rotate {left right : Int} {source : List α} (hle : right - left ≤ s.length)
    (hfill : source.length = (right - left).toNat) :
    ∃ t, (assign (left + k) (right + k) source s).ending = (.ok (), t) ∧
      (assign left right source (s.rotate k)).ending = (.ok (), t.rotate k) := by
  have hk' : k ≤ s.length := Nat.le_of_lt hk
  have hlength := length_rotate hk'
  have hs' : ((s.rotate k).length : Int) ≤ Index.greatest := by rwa [hlength]
  have hfill' : source.length = (right + k - (left + k)).toNat := by
    rwa [Int.add_sub_add_right]
  obtain ⟨t, ht⟩ := exists_accepted_of_fill hmode hs (by omega) hfill'
  obtain ⟨u, hu⟩ := exists_accepted_of_fill (s := s.rotate k) hmode hs' (by omega) hfill
  obtain ⟨htlength, htturn⟩ := turns_of_filled hmode hs hfill' ht
  obtain ⟨hulength, huturn⟩ := turns_of_filled (s := s.rotate k) hmode hs' hfill hu
  have hkt : k ≤ t.length := by omega
  -- Both read the source first and then the rest of `s`, from the same index on.
  have hturn : u.turns left u.length = (t.rotate k).turns left (t.rotate k).length := by
    have hshift : left + source.length + k = left + k + source.length := by omega
    calc
      u.turns left u.length = source ++ s.turns (left + k + source.length)
          (s.length - source.length) := by rw [huturn, turns_rotate hk', hlength, hshift]
      _ = t.turns (left + k) t.length := htturn.symm
      _ = (t.rotate k).turns left (t.rotate k).length := by
        rw [turns_rotate hkt, length_rotate hkt]
  have hmodes : u.mode = (t.rotate k).mode := by
    rw [mode_of_ending_assign hu, mode_rotate, mode_rotate, mode_of_ending_assign ht]
  have heq : u = t.rotate k := by
    apply eq_of_turns_eq left hmodes _ hturn
    rw [hulength, length_rotate hkt, htlength, hlength]
  exact ⟨t, ht, heq ▸ hu⟩

theorem ending_set_rotate (index : Int) (value : α) :
    ∃ t, (set (index + k) value s).ending = (.ok (), t) ∧
      (set index value (s.rotate k)).ending = (.ok (), t.rotate k) := by
  have hlength := length_rotate (Nat.le_of_lt hk)
  have hspan : index + 1 - index = 1 := by omega
  have hshift : index + 1 + k = index + k + 1 := by omega
  have hfill : [value].length = (index + 1 - index).toNat := by
    rw [hspan]
    rfl
  have hassign := ending_assign_rotate hmode hs hk (by omega) hfill
  rw [hshift] at hassign
  rwa [ending_set_cyclic hmode hs (by omega),
    ending_set_cyclic (s := s.rotate k) hmode (by rwa [hlength]) (by omega)]

end Rotated

/-- Where the buffer of a cyclic sequence ends cannot be told from reads, replacements and assignments of
the length of their range: on a rotated sequence they give the same as on the sequence with all indices
shifted along, and leave its rotation. Only the shift shows in the error that refuses a range of more than
one turn, as it names the bounds of the request. -/
theorem rotate_unobservable (hmode : s.mode = .cyclic) (hs : (s.length : Int) ≤ Index.greatest)
    (hk : k < s.length) :
    (∀ index, (s.rotate k).get index = s.get (index + k)) ∧
    (∀ left right, ((s.rotate k).slice left right : Outcome Error (Sequence α)) =
      s.slice (left + k) (right + k)) ∧
    (∀ index value, ∃ t, (set (index + k) value s).ending = (.ok (), t) ∧
      (set index value (s.rotate k)).ending = (.ok (), t.rotate k)) ∧
    ∀ (left right : Int) (source : List α), (source.length : Int) = max 0 (right - left) →
      ((s.length : Int) < right - left ∧
        (assign (left + k) (right + k) source s).ending =
          (.error (.overWrapped (left + k) (right + k) s.length), s) ∧
        (assign left right source (s.rotate k)).ending =
          (.error (.overWrapped left right s.length), s.rotate k)) ∨
      (right - left ≤ s.length ∧
        ∃ t, (assign (left + k) (right + k) source s).ending = (.ok (), t) ∧
          (assign left right source (s.rotate k)).ending = (.ok (), t.rotate k)) := by
  refine ⟨get_rotate hmode hs hk, slice_rotate hmode hs hk, ending_set_rotate hmode hs hk, ?_⟩
  intro left right source hfill
  have hlength := length_rotate (Nat.le_of_lt hk)
  by_cases hover : (s.length : Int) < right - left
  · left
    rw [assign_cyclic_of_lt hmode (by omega),
      assign_cyclic_of_lt (s := s.rotate k) hmode (by rwa [hlength]), hlength]
    exact ⟨hover, rfl, rfl⟩
  · right
    exact ⟨by omega, ending_assign_rotate hmode hs hk (by omega) (by omega)⟩

/-- The assignment crosses the end of the buffer, and stays in the buffer rotated by 3. -/
theorem rotate_unobservable_bridging :
    let s : Sequence Nat := ⟨[0, 1, 2, 3], .cyclic⟩
    s.mode = .cyclic ∧ (s.length : Int) ≤ Index.greatest ∧ 3 < s.length ∧
      (assign 3 5 [8, 9] s).ending = (.ok (), ⟨[9, 1, 2, 8], .cyclic⟩) ∧
      (assign 0 2 [8, 9] (s.rotate 3)).ending = (.ok (), ⟨[8, 9, 1, 2], .cyclic⟩) ∧
      (s.rotate 3).get 1 = s.get (1 + 3) ∧
      ∃ t, (assign (0 + 3) (2 + 3) [8, 9] s).ending = (.ok (), t) ∧
        (assign 0 2 [8, 9] (s.rotate 3)).ending = (.ok (), t.rotate 3) := by
  intro s
  have h := rotate_unobservable (s := s) (k := 3) rfl (by decide) (by decide)
  have hassign := (h.2.2.2 0 2 [8, 9] (by decide)).resolve_left fun hover => by
    exact absurd hover.1 (by decide)
  exact ⟨rfl, by decide, by decide, by decide, by decide, h.1 1, hassign.2⟩

end SequenceMachine.Sequence
