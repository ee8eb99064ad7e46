import SequenceMachine.Proofs.Sequence.Position

namespace SequenceMachine.Sequence

variable {α : Type} {s : Sequence α} {first last : Int}

/-- The elements of a stretch of the buffer at the positions that `keep` accepts, in their order. The
stretch begins at position `start`. -/
def selected (keep : Nat → Bool) (start : Nat) (stretch : List α) : List α :=
  ((stretch.zipIdx start).filter fun entry => keep entry.2).map Prod.fst

section Selected
variable (keep : Nat → Bool) (start : Nat) {stretch : List α}

/-- The positions of a second stretch go on where the first one ends. -/
theorem selected_append (l l' : List α) :
    selected keep start (l ++ l') = selected keep start l ++ selected keep (start + l.length) l' := by
  rw [selected, List.zipIdx_append, List.filter_append, List.map_append]
  rfl

theorem selected_eq_self (h : ∀ x, start ≤ x → x < start + stretch.length → keep x = true) :
    selected keep start stretch = stretch := by
  have hall : (stretch.zipIdx start).filter (fun entry => keep entry.2) = stretch.zipIdx start := by
    apply List.filter_eq_self.mpr
    rintro ⟨a, x⟩ hmem
    obtain ⟨hle, hlt, _⟩ := List.mem_zipIdx hmem
    exact h x hle hlt
  rw [selected, hall, List.zipIdx_map_fst]

theorem selected_eq_nil (h : ∀ x, start ≤ x → x < start + stretch.length → keep x = false) :
    selected keep start stretch = [] := by
  have hnone : (stretch.zipIdx start).filter (fun entry => keep entry.2) = [] := by
    apply List.filter_eq_nil_iff.mpr
    rintro ⟨a, x⟩ hmem
    obtain ⟨hle, hlt, _⟩ := List.mem_zipIdx hmem
    rw [h x hle hlt]
    exact Bool.false_ne_true
  rw [selected, hnone, List.map_nil]

end Selected

section Parts
variable {keep : Nat → Bool} {buffer : List α} {p q : Nat}

theorem selected_eq_append (keep : Nat → Bool) (hle : p ≤ q) (hq : q ≤ buffer.length) :
    selected keep 0 buffer = selected keep 0 (buffer.take p) ++
      selected keep p ((buffer.take q).drop p) ++ selected keep q (buffer.drop q) := by
  have hbefore : (buffer.take p).length = p := List.length_take_of_le (Nat.le_trans hle hq)
  have hupTo : (buffer.take q).length = q := List.length_take_of_le hq
  have hfront : (buffer.take q).take p = buffer.take p := by
    rw [List.take_take, Nat.min_eq_left hle]
  have hrear := selected_append keep 0 (buffer.take q) (buffer.drop q)
  have hmiddle := selected_append keep 0 (buffer.take p) ((buffer.take q).drop p)
  rw [List.take_append_drop, hupTo, Nat.zero_add] at hrear
  rw [hbefore, Nat.zero_add, ← hfront, List.take_append_drop, hfront] at hmiddle
  rw [hrear, hmiddle]

/-- Where all positions outside a range are kept, the buffer before and behind it remains. -/
theorem selected_outside (hle : p ≤ q) (hq : q ≤ buffer.length)
    (hkeep : ∀ x, x < buffer.length → (keep x = true ↔ x < p ∨ q ≤ x)) :
    selected keep 0 buffer = buffer.take p ++ buffer.drop q := by
  have hbefore : (buffer.take p).length = p := List.length_take_of_le (Nat.le_trans hle hq)
  have hrange : ((buffer.take q).drop p).length = q - p := by
    rw [List.length_drop, List.length_take_of_le hq]
  have hbehind : (buffer.drop q).length = buffer.length - q := List.length_drop
  have hfirst : selected keep 0 (buffer.take p) = buffer.take p := by
    apply selected_eq_self
    intro x _ hx
    exact (hkeep x (by omega)).mpr (.inl (by omega))
  have hmiddle : selected keep p ((buffer.take q).drop p) = [] := by
    apply selected_eq_nil
    intro x hp hx
    rw [Bool.eq_false_iff, ne_eq, hkeep x (by omega)]
    omega
  have hlast : selected keep q (buffer.drop q) = buffer.drop q := by
    apply selected_eq_self
    intro x hx hlt
    exact (hkeep x (by omega)).mpr (.inr hx)
  rw [selected_eq_append keep hle hq, hfirst, hmiddle, hlast, List.append_nil]

/-- Where the positions of a range are kept, the range remains. -/
theorem selected_inside (hle : p ≤ q) (hq : q ≤ buffer.length)
    (hkeep : ∀ x, x < buffer.length → (keep x = true ↔ p ≤ x ∧ x < q)) :
    selected keep 0 buffer = (buffer.take q).drop p := by
  have hbefore : (buffer.take p).length = p := List.length_take_of_le (Nat.le_trans hle hq)
  have hrange : ((buffer.take q).drop p).length = q - p := by
    rw [List.length_drop, List.length_take_of_le hq]
  have hfirst : selected keep 0 (buffer.take p) = [] := by
    apply selected_eq_nil
    intro x _ hx
    rw [Bool.eq_false_iff, ne_eq, hkeep x (by omega)]
    omega
  have hmiddle : selected keep p ((buffer.take q).drop p) = (buffer.take q).drop p := by
    apply selected_eq_self
    intro x hp hx
    exact (hkeep x (by omega)).mpr ⟨hp, by omega⟩
  have hlast : selected keep q (buffer.drop q) = [] := by
    apply selected_eq_nil
    intro x hx hlt
    rw [List.length_drop] at hlt
    rw [Bool.eq_false_iff, ne_eq, hkeep x (by omega)]
    omega
  rw [selected_eq_append keep hle hq, hfirst, hmiddle, hlast, List.nil_append, List.append_nil]

end Parts

section Cyclic
variable (hne : s.length ≠ 0) (first last : Int)
include hne

/-- The steps from the first index to the last one, in the buffer or around its end. -/
theorem emod_sub_eq :
    (last - first) % (s.length : Int) =
      if Index.residue first s.length ≤ Index.residue last s.length then
        (Index.residue last s.length : Int) - Index.residue first s.length
      else Index.residue last s.length + s.length - Index.residue first s.length := by
  rw [← Index.emod_natCast_sub first (Index.residue_lt last hne), Index.natCast_residue last hne,
    Int.emod_sub_emod]

theorem selected_of_le (hle : Index.residue first s.length ≤ Index.residue last s.length) :
    selected (fun x => (last - first) % (s.length : Int) < ((x : Int) - first) % (s.length : Int)) 0
        s.elements =
      s.elements.take (Index.residue first s.length) ++
        s.elements.drop (Index.residue last s.length + 1) := by
  have hlast := Index.residue_lt last hne
  apply selected_outside (Nat.le_succ_of_le hle) hlast
  intro x hx
  have hx' : x < s.length := hx
  rw [decide_eq_true_iff, emod_sub_eq hne, if_pos hle, Index.emod_natCast_sub first hx']
  -- A position before the first one is reached in the next turn only, after the last one.
  split <;> omega

theorem selected_of_lt (hlt : Index.residue last s.length < Index.residue first s.length) :
    selected (fun x => (last - first) % (s.length : Int) < ((x : Int) - first) % (s.length : Int)) 0
        s.elements =
      (s.elements.take (Index.residue first s.length)).drop (Index.residue last s.length + 1) := by
  have hfirst := Index.residue_lt first hne
  apply selected_inside hlt (Nat.le_of_lt hfirst)
  intro x hx
  have hx' : x < s.length := hx
  rw [decide_eq_true_iff, emod_sub_eq hne, if_neg (Nat.not_le.mpr hlt),
    Index.emod_natCast_sub first hx']
  split <;> omega

variable (hmode : s.mode = .cyclic) (hs : (s.length : Int) ≤ Index.greatest)
include hmode hs

/-- A deletion whose ends are in order in the buffer cuts one range out of it. -/
theorem delete_cyclic_of_le (hle : Index.residue first s.length ≤ Index.residue last s.length) :
    (delete first last s).ending = (.ok (), { s with
      elements := s.elements.take (Index.residue first s.length) ++
        s.elements.drop (Index.residue last s.length + 1) }) := by
  have hstart := position_of_not_misses hs (not_misses_cyclic hmode hne first)
  have hstop := position_of_not_misses hs (not_misses_cyclic hmode hne last)
  rw [delete_apply_of_le hstart hstop hle]
  rfl

/-- Any other deletion takes the end of the buffer and its beginning. -/
theorem delete_cyclic_of_lt (hlt : Index.residue last s.length < Index.residue first s.length) :
    (delete first last s).ending = (.ok (), { s with
      elements := (s.elements.take (Index.residue first s.length)).drop
        (Index.residue last s.length + 1) }) := by
  have hstart := position_of_not_misses hs (not_misses_cyclic hmode hne first)
  have hstop := position_of_not_misses hs (not_misses_cyclic hmode hne last)
  rw [delete_apply_cyclic hstart hstop hmode hlt]
  rfl

/-- The element behind the last one is the first that is left between the two stretches. -/
theorem exists_get_succ_of_lt (hlt : Index.residue last s.length + 1 < Index.residue first s.length) :
    ∃ a, s.get (last + 1) = .ok a ∧ ((s.elements.take (Index.residue first s.length)).drop
      (Index.residue last s.length + 1))[0]? = some a := by
  have hfirst := Index.residue_lt first hne
  have hnext : Index.residue last s.length + 1 < s.elements.length := Nat.lt_trans hlt hfirst
  have hposition : Index.residue (last + (1 : Nat)) s.length = Index.residue last s.length + 1 :=
    Index.residue_add_inside hnext
  obtain ⟨a, ha⟩ : ∃ a, s.elements[Index.residue last s.length + 1]? = some a :=
    ⟨_, List.getElem?_eq_getElem hnext⟩
  refine ⟨a, ?_, ?_⟩
  · apply get_eq_ok hs (not_misses_cyclic hmode hne _)
    rw [← Int.natCast_one, hposition, ha]
  · rw [List.getElem?_drop, Nat.add_zero, List.getElem?_take_of_lt hlt, ha]

end Cyclic

/-- A deletion removes the elements that its range addresses, and no others. In a cyclic sequence that is
not empty it succeeds for all indices. It keeps, in their order, the elements to whose positions more steps
lead from the first index than lead to the last one, so it removes one element more than those steps. If
the range crosses the end of the buffer and anything is left, the element that followed the last one comes
to stand at the beginning. Where both indices name positions that are in order, as they have to in a
bounded sequence, the elements from the one position to the other are cut out. -/
theorem delete_removes_addressed (s : Sequence α) (first last : Int) :
    (s.mode = .cyclic → s.length ≠ 0 → (s.length : Int) ≤ Index.greatest →
      let n : Int := s.length
      let steps := (last - first) % n
      ∃ t, (delete first last s).ending = (.ok (), t) ∧ t.mode = s.mode ∧
        t.elements = selected (fun x => steps < ((x : Int) - first) % n) 0 s.elements ∧
        (t.length : Int) + (steps + 1) = n ∧
        (last % n < first % n → t.length ≠ 0 →
          ∃ a, s.get (last + 1) = .ok a ∧ t.elements[0]? = some a)) ∧
    ∀ p q, s.position first = .ok p → s.position last = .ok q → p ≤ q →
      (delete first last s).ending =
        (.ok (), { s with elements := s.elements.take p ++ s.elements.drop (q + 1) }) := by
  constructor
  · intro hmode hne hs n steps
    let p := Index.residue first s.length
    let q := Index.residue last s.length
    have hp : p < s.length := Index.residue_lt first hne
    have hq : q < s.length := Index.residue_lt last hne
    have hbuffer : s.elements.length = s.length := rfl
    have hsteps : steps = if p ≤ q then (q : Int) - p else q + s.length - p := emod_sub_eq hne first last
    by_cases hle : p ≤ q
    · have hordered : ¬ last % n < first % n := by
        rw [← Index.natCast_residue first hne, ← Index.natCast_residue last hne]
        omega
      refine ⟨_, delete_cyclic_of_le hne first last hmode hs hle, rfl,
        (selected_of_le hne first last hle).symm, ?_, fun hacross => absurd hacross hordered⟩
      rw [if_pos hle] at hsteps
      rw [length, List.length_append, List.length_take, List.length_drop]
      omega
    · have hlt : q < p := Nat.not_le.mp hle
      refine ⟨_, delete_cyclic_of_lt hne first last hmode hs hlt, rfl,
        (selected_of_lt hne first last hlt).symm, ?_, ?_⟩
      · rw [if_neg hle] at hsteps
        rw [length, List.length_drop, List.length_take]
        omega
      · intro _ hleft
        rw [length, List.length_drop, List.length_take] at hleft
        have hbetween : q + 1 < p := by omega
        exact exists_get_succ_of_lt hne first last hmode hs hbetween
  · intro p q hfirst hlast hle
    rw [delete_apply_of_le hfirst hlast hle]
    rfl

/-- The last element and the first two of a cyclic sequence of length 5, named by indices whose difference
is not itself an index; then all of its elements. The last two elements of a bounded sequence. -/
theorem delete_removes_addressed_across_end :
    let s : Sequence Nat := ⟨[0, 1, 2, 3, 4], .cyclic⟩
    let b : Sequence Nat := ⟨[0, 1, 2, 3], .bounded⟩
    s.mode = .cyclic ∧ s.length ≠ 0 ∧ (s.length : Int) ≤ Index.greatest ∧
      ¬ Index.Valid (Index.greatest - 1 - (Index.least + 2)) ∧
      (∃ t, (delete (Index.least + 2) (Index.greatest - 1) s).ending = (.ok (), t) ∧
        t.elements = [2, 3] ∧ (t.length : Int) + (2 + 1) = 5 ∧
        ∃ a, s.get Index.greatest = .ok a ∧ t.elements[0]? = some a) ∧
      (∃ t, (delete 3 2 s).ending = (.ok (), t) ∧ (t.length : Int) + (4 + 1) = 5) ∧
      b.position (-2) = .ok 2 ∧ b.position 3 = .ok 3 ∧
      (delete (-2) 3 b).ending = (.ok (), ⟨[0, 1], .bounded⟩) := by
  intro s b
  have hs : (s.length : Int) ≤ Index.greatest := by decide
  have hne : s.length ≠ 0 := by decide
  have hfirst : b.position (-2) = .ok 2 := by decide
  have hlast : b.position 3 = .ok 3 := by decide
  have hsteps : (Index.greatest - 1 - (Index.least + 2)) % (s.length : Int) = 2 := by decide
  obtain ⟨t, ht, -, hkept, hcount, hnext⟩ :=
    (delete_removes_addressed s (Index.least + 2) (Index.greatest - 1)).1 rfl hne hs
  obtain ⟨u, hu, -, -, hall, -⟩ := (delete_removes_addressed s 3 2).1 rfl hne hs
  have hbounded := (delete_removes_addressed b (-2) 3).2 2 3 hfirst hlast (by decide)
  have helements : t.elements = [2, 3] := by
    rw [hkept]
    decide
  have hleft : t.length ≠ 0 := by
    rw [length, helements]
    decide
  rw [hsteps] at hcount
  exact ⟨rfl, hne, hs, by decide, ⟨t, ht, helements, hcount, hnext (by decide) hleft⟩, ⟨u, hu, hall⟩,
    hfirst, hlast, hbounded⟩

end SequenceMachine.Sequence
