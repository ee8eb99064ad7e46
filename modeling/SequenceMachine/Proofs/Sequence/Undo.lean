import SequenceMachine.Proofs.Sequence.Edits

namespace SequenceMachine.Sequence

variable {α : Type} {s t : Sequence α} {index : Int} {items : List α} {p : Nat}

section Spliced
variable (hp : p ≤ s.length)
include hp

theorem length_spliced (items : List α) : (s.spliced p p items).length = s.length + items.length := by
  have hp' : p ≤ s.elements.length := hp
  change ((s.elements.take p ++ items) ++ s.elements.drop p).length = s.elements.length + items.length
  rw [List.length_append, List.length_append, List.length_take_of_le hp', List.length_drop]
  omega

/-- The items stand behind what was before the position. -/
theorem getElem?_spliced {j : Nat} (hj : j < items.length) :
    (s.spliced p p items).elements[p + j]? = items[j]? := by
  have hbefore : (s.elements.take p).length = p := List.length_take_of_le hp
  have hitem : p + j - p = j := Nat.add_sub_cancel_left p j
  rw [spliced, List.append_assoc, List.getElem?_append_right (by omega), hbefore, hitem,
    List.getElem?_append_left hj]

/-- Taking out what was put in restores the sequence. -/
theorem spliced_out (items : List α) : (s.spliced p p items).spliced p (p + items.length) [] = s := by
  have hbefore : (s.elements.take p).length = p := List.length_take_of_le hp
  have hupTo : (s.elements.take p ++ items).length = p + items.length := by
    rw [List.length_append, hbefore]
  have hfront : (s.spliced p p items).elements.take p = s.elements.take p := by
    rw [spliced, List.append_assoc, List.take_left' hbefore]
  have hrear : (s.spliced p p items).elements.drop (p + items.length) = s.elements.drop p := by
    rw [spliced, List.drop_left' hupTo]
  rw [spliced, hfront, hrear, List.append_nil, List.take_append_drop]
  rfl

end Spliced

/-- A position of the buffer is found by itself as an index, in either mode. -/
theorem get_natCast (hs : (s.length : Int) ≤ Index.greatest) (hp : p < s.length) :
    s.get p = .ok s.elements[p] := by
  rw [get, position_natCast hs hp, Outcome.ok_bind, read_eq_ok hp]

section Inserted
variable (hp : p ≤ s.length) (hs : (s.length : Int) + items.length ≤ Index.greatest)
include hp hs

/-- The items stand one after the other from the place on. -/
theorem get_spliced {j : Nat} (hj : j < items.length) :
    (s.spliced p p items).get ((p : Int) + j) = .ok items[j] := by
  have hlength := length_spliced hp items
  have hlt : p + j < (s.spliced p p items).length := by omega
  have helement : (s.spliced p p items).elements[p + j]? = some items[j] := by
    rw [getElem?_spliced hp hj, List.getElem?_eq_getElem hj]
  rw [← Int.natCast_add, get_natCast (by omega) hlt]
  exact congrArg Outcome.ok (List.getElem_eq_iff hlt |>.mpr helement)

/-- A deletion from the first item to the last one takes out the items and nothing else. -/
theorem ending_delete_spliced (hne : items ≠ []) :
    (delete p ((p : Int) + items.length - 1) (s.spliced p p items)).ending = (.ok (), s) := by
  have hlength := length_spliced hp items
  have hcount : 0 < items.length := List.length_pos_iff.mpr hne
  have hlast : (p : Int) + items.length - 1 = ((p + items.length - 1 : Nat) : Int) := by omega
  have hfirst : (s.spliced p p items).position p = .ok p := position_natCast (by omega) (by omega)
  have hstop : (s.spliced p p items).position ((p : Int) + items.length - 1) =
      .ok (p + items.length - 1) := by
    rw [hlast, position_natCast (by omega) (by omega)]
  have hdelete := ending_delete_of_position hfirst hstop (by omega)
  rw [hdelete, Nat.sub_add_cancel (by omega), spliced_out hp]

end Inserted

/-- A deletion undoes an insertion. After items were inserted at an index that has a place, single reads
find them, in their order, from that place on, and the deletion from the first of them to the last one
restores the sequence. The place is the position that the index stands for in the old length; the grown
sequence is one that can be indexed to its end. -/
theorem delete_undoes_insert (hs : (s.length : Int) + items.length ≤ Index.greatest) (hne : items ≠ [])
    (h : (insert index items s).ending = (.ok (), t)) :
    ∃ p : Nat, s.insertPosition index = .ok p ∧ (p : Int) = s.resolved index ∧
      (∀ j (hj : j < items.length), t.get ((p : Int) + j) = .ok items[j]) ∧
      (delete p ((p : Int) + items.length - 1) t).ending = (.ok (), s) := by
  have hs' : (s.length : Int) ≤ Index.greatest := by omega
  obtain ⟨hplace, rfl⟩ := spliced_of_ending_insert hs' h
  have hfound : s.insertPosition index = .ok (s.place index) := insertPosition_of_not_misses hs' hplace
  have hp : s.place index ≤ s.length := le_of_insertPosition_eq_ok hfound
  refine ⟨s.place index, hfound, natCast_place hs' hplace, ?_, ?_⟩
  · intro j hj
    exact get_spliced hp hs hj
  · exact ending_delete_spliced hp hs hne

/-- Two items in front of the last element of a cyclic sequence, by an index in its third turn; one item
in an empty cyclic sequence; and one behind the last element of a bounded sequence. -/
theorem delete_undoes_insert_turned :
    let s : Sequence Nat := ⟨[0, 1, 2], .cyclic⟩
    let b : Sequence Nat := ⟨[0, 1, 2], .bounded⟩
    (insert 8 [7, 9] s).ending = (.ok (), ⟨[0, 1, 7, 9, 2], .cyclic⟩) ∧
      (get ⟨[0, 1, 7, 9, 2], .cyclic⟩ (2 + (1 : Nat)) = .ok 9) ∧
      (delete 2 (2 + 2 - 1) (⟨[0, 1, 7, 9, 2], .cyclic⟩ : Sequence Nat)).ending = (.ok (), s) ∧
      (insert (-5) [7] (empty .cyclic)).ending = (.ok (), ⟨[7], .cyclic⟩) ∧
      (delete 0 (0 + 1 - 1) (⟨[7], .cyclic⟩ : Sequence Nat)).ending = (.ok (), empty .cyclic) ∧
      (insert 3 [7] b).ending = (.ok (), ⟨[0, 1, 2, 7], .bounded⟩) ∧
      (delete 3 (3 + 1 - 1) (⟨[0, 1, 2, 7], .bounded⟩ : Sequence Nat)).ending = (.ok (), b) := by
  intro s b
  have hturned : (insert 8 [7, 9] s).ending = (.ok (), ⟨[0, 1, 7, 9, 2], .cyclic⟩) := by decide
  have hempty : (insert (-5) [7] (empty .cyclic)).ending = (.ok (), ⟨[7], .cyclic⟩) := by decide
  have hbehind : (insert 3 [7] b).ending = (.ok (), ⟨[0, 1, 2, 7], .bounded⟩) := by decide
  obtain ⟨p, -, hp, hread, hdelete⟩ := delete_undoes_insert (by decide) (by decide) hturned
  obtain ⟨q, -, hq, -, hdelete'⟩ := delete_undoes_insert (by decide) (by decide) hempty
  obtain ⟨r, -, hr, -, hdelete''⟩ := delete_undoes_insert (by decide) (by decide) hbehind
  obtain rfl : p = 2 := Int.ofNat.inj (hp.trans (by decide))
  obtain rfl : q = 0 := Int.ofNat.inj (hq.trans (by decide))
  obtain rfl : r = 3 := Int.ofNat.inj (hr.trans (by decide))
  exact ⟨hturned, hread 1 (by decide), hdelete, hempty, hdelete', hbehind, hdelete''⟩

end SequenceMachine.Sequence
