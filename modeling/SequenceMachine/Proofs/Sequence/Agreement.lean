import SequenceMachine.Proofs.Sequence.Edits
import SequenceMachine.Proofs.Sequence.Reading

namespace SequenceMachine

/-- An index further than one length from the beginning is clamped to the end on its side. -/
theorem Index.clamp_of_outside {index : Int} {length : Nat} (hl : (length : Int) ≤ greatest)
    (hout : ¬ (-(length : Int) ≤ index ∧ index ≤ length)) :
    clamp index length = if index < 0 then 0 else length := by
  rw [clamp, fromStart, ofLength_eq_self hl]
  by_cases hneg : index < 0
  · rw [if_pos hneg, if_pos hneg, if_pos (by omega)]
  · rw [if_neg hneg, if_neg hneg, if_neg (by omega), if_pos (by omega)]

namespace Sequence

variable {α : Type} {s t : Sequence α} {index right : Int} {items : List α} {p : Nat}

/-- The operations all take the index to name the position `p`. What a slice from the index on holds stands
from that position on, around the end of the buffer as often as it takes. -/
structure NamedAt (s : Sequence α) (index : Int) (p : Nat) : Prop where
  lt : p < s.length
  resolved : (p : Int) = s.resolved index
  read : ∃ a, s.elements[p]? = some a ∧ s.get index = .ok a
  replaced : ∀ v, (set index v s).ending = (.ok (), { s with elements := s.elements.set p v })
  removed : (delete index index s).ending = (.ok (), { s with elements := s.elements.eraseIdx p })
  inserted : ∀ items, (insert index items s).ending = (.ok (), s.spliced p p items)
  assigned : ∀ items, (assign index index items s).ending = (.ok (), s.spliced p p items)
  sliced : ∀ right, (s.mode = .cyclic → s.sliceLength index right ≤ Size.capacity) →
    ∃ t, (s.slice index right : Outcome Error (Sequence α)) = .ok t ∧
      t.length = s.sliceLength index right ∧
      ∀ j, j < t.length → t.elements[j]? = s.elements[(p + j) % s.length]?

/-- Where an index names an element, it also names a place for an insertion. -/
theorem not_missesPlace_of_not_misses (h : ¬ s.Misses index) : ¬ s.MissesPlace index := by
  rintro ⟨hmode, hout⟩
  apply h
  refine .inr ⟨hmode, ?_⟩
  rintro ⟨hlow, hhigh⟩
  exact hout ⟨hlow, Int.le_of_lt hhigh⟩

/-- The place of an index that names an element is in front of that element. -/
theorem place_of_not_misses (h : ¬ s.Misses index) : s.place index = Index.residue index s.length := by
  rw [place, if_neg]
  rintro ⟨hmode, hend⟩
  apply h
  refine .inr ⟨hmode, ?_⟩
  rintro ⟨-, hhigh⟩
  exact Int.lt_irrefl _ (hend ▸ hhigh)

/-- Where no element is named and yet there is a place, the place is behind the last element. -/
theorem place_of_misses (h : s.Misses index) (hplace : ¬ s.MissesPlace index) :
    (s.mode = .bounded ∧ index = s.length ∨ s.length = 0) ∧ s.place index = s.length := by
  rw [MissesPlace, not_and, Decidable.not_not] at hplace
  rcases h with hzero | ⟨hmode, hout⟩
  · -- The only place of an empty sequence is its beginning.
    refine ⟨.inr hzero, ?_⟩
    rw [place, hzero, Index.residue_zero_right, ite_self]
  · have hrange := hplace hmode
    have hend : index = s.length := by omega
    refine ⟨.inl ⟨hmode, hend⟩, ?_⟩
    rw [place, if_pos ⟨hmode, hend⟩]

theorem spliced_length (items : List α) : s.spliced s.length s.length items = s.append items := by
  have hall : s.elements.take s.length = s.elements := List.take_length
  have hnone : s.elements.drop s.length = [] := List.drop_length
  rw [spliced, hall, hnone, List.append_nil]
  rfl

section Named
variable (hs : (s.length : Int) ≤ Index.greatest) (h : ¬ s.Misses index)
include hs h

/-- A cyclic slice stands from the position of its left bound on, around the end of the buffer. -/
theorem exists_slice_cyclic (hmode : s.mode = .cyclic)
    (hcapacity : s.sliceLength index right ≤ Size.capacity) :
    ∃ t, (s.slice index right : Outcome Error (Sequence α)) = .ok t ∧
      ∀ j, j < t.length →
        t.elements[j]? = s.elements[(Index.residue index s.length + j) % s.length]? := by
  obtain ⟨hne, -⟩ := not_or.mp h
  rw [sliceLength_cyclic hmode hne hcapacity] at hcapacity
  refine ⟨_, slice_cyclic hmode hs hcapacity, ?_⟩
  intro j hj
  have hcount : j < (right - index).toNat := by
    rw [← length_turns s index hne (right - index).toNat]
    exact hj
  calc
    (s.turns index (right - index).toNat)[j]? = s.elements[Index.residue (index + j) s.length]? :=
      getElem?_turns s index hne hcount
    _ = s.elements[(Index.residue index s.length + j) % s.length]? := by
      rw [Index.residue_add index j hne]

/-- So does a bounded one, which ends in the buffer. -/
theorem exists_slice_bounded (hmode : s.mode = .bounded) (right : Int) :
    ∃ t, (s.slice index right : Outcome Error (Sequence α)) = .ok t ∧
      ∀ j, j < t.length →
        t.elements[j]? = s.elements[(Index.residue index s.length + j) % s.length]? := by
  have hstart : Index.clamp index s.length = Index.residue index s.length := by
    rw [clamp_eq_place hmode hs (not_missesPlace_of_not_misses h), place_of_not_misses h]
  refine ⟨_, slice_bounded hmode index right, ?_⟩
  intro j hj
  have hstop : Index.clamp right s.length ≤ s.elements.length := Index.clamp_le right s.length
  change j < ((s.elements.take (Index.clamp right s.length)).drop (Index.clamp index s.length)).length at hj
  rw [List.length_drop, List.length_take_of_le hstop, hstart] at hj
  -- A slice of a bounded sequence ends in the buffer, so no position is behind its end.
  have hinside : Index.residue index s.length + j < s.length := by
    change _ < s.elements.length
    omega
  change ((s.elements.take (Index.clamp right s.length)).drop (Index.clamp index s.length))[j]? = _
  rw [hstart, List.getElem?_drop, List.getElem?_take_of_lt (by omega), Nat.mod_eq_of_lt hinside]

/-- For every operation an index that names an element means the position of its residue. -/
theorem namedAt_residue : s.NamedAt index (Index.residue index s.length) := by
  have hposition := position_of_not_misses hs h
  have hlt : Index.residue index s.length < s.length := lt_of_position_eq_ok hposition
  have hplace := not_missesPlace_of_not_misses h
  have hinsert : s.insertPosition index = .ok (Index.residue index s.length) := by
    rw [insertPosition_of_not_misses hs hplace, place_of_not_misses h]
  have hread : s.elements[Index.residue index s.length]? = some _ := List.getElem?_eq_getElem hlt
  have hinserted := fun items : List α => ending_insert_of_position hinsert items
  refine ⟨hlt, ?_, ⟨_, hread, get_eq_ok hs h hread⟩, ?_, ?_, hinserted, ?_, ?_⟩
  · rw [← place_of_not_misses h, natCast_place hs hplace]
  · intro v
    rw [set_apply, hposition]
    rfl
  · rw [ending_delete_of_position hposition hposition (Nat.le_refl _), spliced, List.append_nil,
      List.eraseIdx_eq_take_drop_succ]
  · intro items
    rw [← ending_insert_eq_assign hs hplace, hinserted]
  · intro right hcapacity
    have hslice : ∃ t, (s.slice index right : Outcome Error (Sequence α)) = .ok t ∧
        ∀ j, j < t.length →
          t.elements[j]? = s.elements[(Index.residue index s.length + j) % s.length]? := by
      cases hmode : s.mode with
      | bounded => exact exists_slice_bounded hs h hmode right
      | cyclic => exact exists_slice_cyclic hs h hmode (hcapacity hmode)
    obtain ⟨t, ht, helements⟩ := hslice
    exact ⟨t, ht, length_of_slice_eq_ok ht, helements⟩

end Named

section Clamped
variable {c : Nat} (hmode : s.mode = .bounded) (hc : Index.clamp index s.length = Index.clamp c s.length)
include hmode hc

/-- A bounded sequence tells bounds apart only by where they are clamped to. -/
theorem slice_clamp (other : Int) :
    (s.slice index other : Outcome Error (Sequence α)) = s.slice c other ∧
      (s.slice other index : Outcome Error (Sequence α)) = s.slice other c := by
  simp only [slice_bounded hmode, hc, and_self]

/-- A bound of a bounded sequence counts as what it is clamped to, on either side of the range. -/
theorem assign_clamp (other : Int) (source : List α) :
    assign index other source s = assign c other source s ∧
      assign other index source s = assign other c source s := by
  simp only [assign_bounded hmode, hc, and_self]

end Clamped

/-- An index has one position for all operations. Where a read finds an element there is a position, the
one that the index stands for, which is read, replaced and removed, in front of which insertions and
assignments put their items, and from which slices start. An insertion that succeeds where a read fails
appends, and its index is the length of a bounded sequence, or the sequence is empty. Where an insertion is
refused the sequence is bounded, and a range takes the index as if it were the end of the sequence on its
side, as its left bound and as its right one. -/
theorem one_position (hs : (s.length : Int) ≤ Index.greatest) (index : Int) :
    ((∃ a, s.get index = .ok a) → ∃ p, s.NamedAt index p) ∧
    ((∀ a, s.get index ≠ .ok a) → ∀ items t, (insert index items s).ending = (.ok (), t) →
      (s.mode = .bounded ∧ index = s.length ∨ s.length = 0) ∧ t = s.append items) ∧
    ((∃ items, (insert index items s).outcome ≠ .ok ()) →
      s.mode = .bounded ∧ index ≠ 0 ∧
      let c := if index < 0 then 0 else s.length
      ∀ (other : Int) (source : List α),
        ((s.slice index other : Outcome Error (Sequence α)) = s.slice c other ∧
          (s.slice other index : Outcome Error (Sequence α)) = s.slice other c) ∧
        assign index other source s = assign c other source s ∧
        assign other index source s = assign other c source s) := by
  refine ⟨?_, ?_, ?_⟩
  · rintro ⟨a, ha⟩
    have hnames : ¬ s.Misses index := by
      intro hmisses
      have hrefused : s.get index = .error _ := (get_eq_error_iff hs).mpr ⟨hmisses, rfl⟩
      cases ha.symm.trans hrefused
    exact ⟨_, namedAt_residue hs hnames⟩
  · intro hfails items t ht
    have hmisses : s.Misses index := by
      apply Classical.byContradiction
      intro hnames
      obtain ⟨a, -, ha⟩ := (namedAt_residue hs hnames).read
      exact hfails a ha
    obtain ⟨hplace, rfl⟩ := spliced_of_ending_insert hs ht
    obtain ⟨hwhere, hend⟩ := place_of_misses hmisses hplace
    refine ⟨hwhere, ?_⟩
    rw [hend, spliced_length]
  · rintro ⟨items, hrefused⟩
    have hmisses : s.MissesPlace index := by
      apply Classical.byContradiction
      intro hplace
      apply hrefused
      exact congrArg Prod.fst (ending_insert_of_position (insertPosition_of_not_misses hs hplace) items)
    obtain ⟨hmode, hout⟩ := hmisses
    refine ⟨hmode, by omega, ?_⟩
    intro c other source
    have hle : c ≤ s.length := by
      change (if index < 0 then 0 else s.length) ≤ s.length
      split <;> omega
    have hc : Index.clamp index s.length = Index.clamp c s.length := by
      rw [Index.clamp_of_outside hs hout, Index.clamp_natCast hle hs]
    exact ⟨slice_clamp hmode hc other, assign_clamp hmode hc other source⟩

/-- An index in the second turn of a cyclic sequence, whose position is read, replaced and removed; the
index behind the last element of a bounded one; and an index so far off that only ranges take it. -/
theorem one_position_turned :
    let s : Sequence Nat := ⟨[0, 1, 2], .cyclic⟩
    let b : Sequence Nat := ⟨[0, 1, 2], .bounded⟩
    (s.length : Int) ≤ Index.greatest ∧ (b.length : Int) ≤ Index.greatest ∧
      s.get 5 = .ok 2 ∧ (∃ p, s.NamedAt 5 p) ∧
      (∀ a, b.get 3 ≠ .ok a) ∧ (insert 3 [7] b).ending = (.ok (), b.append [7]) ∧
      (insert (-4) [7] b).outcome ≠ .ok () ∧
      (b.slice (-4) 2 : Outcome Error (Sequence Nat)) = b.slice 0 2 ∧
      assign 1 (-4) [7] b = assign 1 0 [7] b := by
  intro s b
  have hs : (s.length : Int) ≤ Index.greatest := by decide
  have hb : (b.length : Int) ≤ Index.greatest := by decide
  have hread : s.get 5 = .ok 2 := by decide
  have hfails : ∀ a, b.get 3 ≠ .ok a := by
    intro a h
    cases h
  have hrefused : (insert (-4) [7] b).outcome ≠ .ok () := by decide
  have hnamed := (one_position hs 5).1 ⟨2, hread⟩
  have happended := ((one_position hb 3).2.1 hfails [7] (b.append [7]) rfl).2
  obtain ⟨-, -, hclamped⟩ := (one_position hb (-4)).2.2 ⟨[7], hrefused⟩
  exact ⟨hs, hb, hread, hnamed, hfails, rfl, hrefused, (hclamped 2 []).1.1, (hclamped 1 [7]).2.2⟩

end Sequence

end SequenceMachine
