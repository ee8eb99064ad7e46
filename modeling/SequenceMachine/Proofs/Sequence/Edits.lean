import SequenceMachine.Proofs.Sequence.Position
import SequenceMachine.Proofs.Sequence.Turns

/-!
Edits of elements as assignments. An insertion, a deletion of a range in the buffer and an assignment to
such a range each put some elements in the place of others (`spliced`). They resolve their indices in
different ways, an insertion by its place, a deletion by the positions of its ends, an assignment by clamped
or wrapped bounds. Where an edit is carried out these come out at the same positions, so it leaves what the
assignment to those positions does.
-/

namespace SequenceMachine.Sequence

variable {α : Type} {s t : Sequence α} {index first last left right : Int} {items source : List α}
  {p q : Nat}

def spliced (start stop : Nat) (items : List α) (s : Sequence α) : Sequence α :=
  { s with elements := s.elements.take start ++ items ++ s.elements.drop stop }

theorem length_spliced_nil (hp : p ≤ s.length) : (s.spliced p q []).length = p + (s.length - q) := by
  have hbefore : (s.elements.take p).length = p := List.length_take_of_le hp
  rw [length, spliced, List.append_nil, List.length_append, hbefore, List.length_drop]
  rfl

/-- Taking out a range and putting something in its place is replacing it. -/
theorem spliced_spliced (hp : p ≤ s.length) (q : Nat) (items : List α) :
    (s.spliced p q []).spliced p p items = s.spliced p q items := by
  have hbefore : (s.elements.take p).length = p := List.length_take_of_le hp
  have helements : (s.spliced p q []).elements = s.elements.take p ++ s.elements.drop q := by
    rw [spliced, List.append_nil]
  rw [spliced, helements, List.take_left' hbefore, List.drop_left' hbefore]
  rfl

/-- An insertion puts its items in the place of no elements. -/
theorem ending_insert_of_position (h : s.insertPosition index = .ok p) (items : List α) :
    (insert index items s).ending = (.ok (), s.spliced p p items) := by
  rw [insert_apply, h]
  rfl

/-- A deletion in the buffer puts nothing in the place of its range. -/
theorem ending_delete_of_position (hfirst : s.position first = .ok p) (hlast : s.position last = .ok q)
    (hle : p ≤ q) : (delete first last s).ending = (.ok (), s.spliced p (q + 1) []) := by
  rw [delete_apply_of_le hfirst hlast hle, spliced, List.append_nil]
  rfl

/-- A position of the buffer is found by itself as an index. -/
theorem position_natCast (hs : (s.length : Int) ≤ Index.greatest) (hp : p < s.length) :
    s.position p = .ok p := by
  have hin : ¬ s.Misses p := by
    rintro (hzero | ⟨-, hout⟩)
    · omega
    · exact hout ⟨by omega, by omega⟩
  rw [position_of_not_misses hs hin, Index.residue_natCast hp]

/-- Every index names a place in a cyclic sequence, also in an empty one. -/
theorem not_missesPlace_cyclic (hmode : s.mode = .cyclic) : ¬ s.MissesPlace index := by
  rintro ⟨hbounded, -⟩
  cases hmode.symm.trans hbounded

theorem place_cyclic (hmode : s.mode = .cyclic) : s.place index = Index.residue index s.length := by
  rw [place, if_neg]
  rintro ⟨hbounded, -⟩
  cases hmode.symm.trans hbounded

section Bounded
variable (hmode : s.mode = .bounded)
include hmode

/-- An assignment to a bounded sequence is never refused: it splices at the clamped bounds. -/
theorem ending_assign_of_bounded (left right : Int) (source : List α) :
    (assign left right source s).ending = (.ok (), s.spliced (Index.clamp left s.length)
      (max (Index.clamp left s.length) (Index.clamp right s.length)) source) := by
  rw [assign_bounded hmode]
  rfl

theorem place_natCast (hp : p ≤ s.length) : s.place p = p := by
  unfold place
  split
  · next hend => exact (Int.ofNat.inj hend.2).symm
  · next hinside =>
    have hne : p ≠ s.length := by
      rintro rfl
      exact hinside ⟨hmode, rfl⟩
    exact Index.residue_natCast (by omega)

variable (hs : (s.length : Int) ≤ Index.greatest)
include hs

theorem insertPosition_natCast (hp : p ≤ s.length) : s.insertPosition p = .ok p := by
  have hin : ¬ s.MissesPlace p := by
    rintro ⟨-, hout⟩
    exact hout ⟨by omega, by omega⟩
  rw [insertPosition_of_not_misses hs hin, place_natCast hmode hp]

/-- Where an insertion has a place, clamping finds it. -/
theorem clamp_eq_place (h : ¬ s.MissesPlace index) : Index.clamp index s.length = s.place index := by
  have hrange : -(s.length : Int) ≤ index ∧ index ≤ s.length :=
    Decidable.of_not_not fun hout => h ⟨hmode, hout⟩
  rcases Int.lt_or_eq_of_le hrange.2 with hlt | heq
  · have hfrom := Index.natCast_residue_eq_fromStart hs hrange.1 hlt
    have hposition : Index.residue index s.length < s.length :=
      Index.residue_lt index (by omega)
    -- An index with a place is not outside after the offset, so clamping leaves it where it is.
    rw [place, if_neg (by omega), Index.clamp, ← hfrom, Index.ofLength_eq_self hs]
    split
    · omega
    · rw [if_neg (by omega), Int.toNat_natCast]
  · rw [heq, Index.clamp_natCast (Nat.le_refl _) hs, place_natCast hmode (Nat.le_refl _)]

/-- A deletion and an insertion where it began are one splice. -/
theorem ending_delete_insert (hlt : p < q) (hq : q ≤ s.length) (items : List α) :
    ((do delete p ((q : Int) - 1); insert p items : Edit α Unit) s).ending =
      (.ok (), s.spliced p q items) := by
  have hpred : (q : Int) - 1 = ((q - 1 : Nat) : Int) := by omega
  have hfirst : s.position p = .ok p := position_natCast hs (by omega)
  have hlast : s.position ((q : Int) - 1) = .ok (q - 1) := by
    rw [hpred, position_natCast hs (by omega)]
  have hdelete := ending_delete_of_position hfirst hlast (by omega)
  rw [Nat.sub_add_cancel (by omega)] at hdelete
  have hrest : (s.spliced p q []).length = p + (s.length - q) := length_spliced_nil (by omega)
  have hplace : (s.spliced p q []).insertPosition p = .ok p :=
    insertPosition_natCast hmode (by omega) (by omega)
  rw [Action.ending_bind_of_ending hdelete, Outcome.andThen_ok, ending_insert_of_position hplace,
    spliced_spliced (by omega)]

end Bounded

section Assign
variable (hs : (s.length : Int) ≤ Index.greatest)
include hs

theorem ending_assign_natCast (hlt : p < q) (hq : q ≤ s.length) (source : List α) :
    (assign p q source s).ending = (.ok (), s.spliced p q source) := by
  cases hmode : s.mode with
  | bounded =>
    rw [ending_assign_of_bounded hmode, Index.clamp_natCast (by omega) hs, Index.clamp_natCast hq hs,
      Nat.max_eq_right (Nat.le_of_lt hlt)]
  | cyclic =>
    have hp : Index.residue p s.length = p := Index.residue_natCast (by omega)
    have hspan : (q : Int) = p + ((q - p : Nat) : Int) := by omega
    have hstop : p + (q - p) = q := by omega
    rw [hspan, assign_cyclic_inside hmode hs (by omega) (by omega), hp, hstop]
    rfl

/-- An insertion that is carried out has a place, and leaves the items there. -/
theorem spliced_of_ending_insert (h : (insert index items s).ending = (.ok (), t)) :
    ¬ s.MissesPlace index ∧ t = s.spliced (s.place index) (s.place index) items := by
  have hplace : ¬ s.MissesPlace index := by
    intro hmisses
    have hrefused : (insert index items s).outcome = .error (.outOfBounds index s.length) :=
      (insert_eq_error_iff hs).mpr ⟨hmisses, rfl⟩
    cases (congrArg Prod.fst h).symm.trans hrefused
  have hinsert := ending_insert_of_position (insertPosition_of_not_misses hs hplace) items
  exact ⟨hplace, congrArg Prod.snd (h.symm.trans hinsert)⟩

/-- An insertion that is carried out is an assignment to the empty range at its index. -/
theorem ending_insert_eq_assign (h : ¬ s.MissesPlace index) (items : List α) :
    (insert index items s).ending = (assign index index items s).ending := by
  rw [ending_insert_of_position (insertPosition_of_not_misses hs h)]
  cases hmode : s.mode with
  | bounded => rw [ending_assign_of_bounded hmode, Nat.max_self, clamp_eq_place hmode hs h]
  | cyclic =>
    rw [assign_cyclic_of_le hmode hs (Int.le_refl index), place_cyclic hmode]
    rfl

end Assign

/-- Edits of elements agree with assignments. An insertion that is carried out, in a cyclic sequence every
one, leaves what an assignment to the empty range at its index does. A deletion between two positions that
are in order leaves what an assignment of no elements to the range from the one to behind the other does.
In a bounded sequence an assignment to a range that is not empty leaves what a deletion of the range and an
insertion at its beginning do. -/
theorem edits_agree (hs : (s.length : Int) ≤ Index.greatest) :
    (∀ (index : Int) (items : List α),
      (s.mode = .cyclic → (insert index items s).outcome = .ok ()) ∧
      ((insert index items s).outcome = .ok () →
        (insert index items s).ending = (assign index index items s).ending)) ∧
    (∀ (first last : Int) (p q : Nat), s.position first = .ok p → s.position last = .ok q → p ≤ q →
      ∃ t, (delete first last s).ending = (.ok (), t) ∧
        (assign p ((q : Int) + 1) [] s).ending = (.ok (), t)) ∧
    (s.mode = .bounded → ∀ (left right : Int) (source : List α),
      let a := Index.clamp left s.length
      let e := Index.clamp right s.length
      a < e → ∃ t, (assign left right source s).ending = (.ok (), t) ∧
        ((do delete a ((e : Int) - 1); insert a source : Edit α Unit) s).ending = (.ok (), t)) := by
  refine ⟨?_, ?_, ?_⟩
  · intro index items
    constructor
    · intro hmode
      have hplace : s.insertPosition index = .ok (s.place index) :=
        insertPosition_of_not_misses hs (not_missesPlace_cyclic hmode)
      exact congrArg Prod.fst (ending_insert_of_position hplace items)
    · intro hok
      apply ending_insert_eq_assign hs
      intro hmisses
      have hrefused : (insert index items s).outcome = .error (.outOfBounds index s.length) :=
        (insert_eq_error_iff hs).mpr ⟨hmisses, rfl⟩
      cases hok.symm.trans hrefused
  · intro first last p q hfirst hlast hle
    have hq : q < s.length := lt_of_position_eq_ok hlast
    refine ⟨_, ending_delete_of_position hfirst hlast hle, ?_⟩
    exact ending_assign_natCast hs (Nat.lt_succ_of_le hle) hq []
  · intro hmode left right source a e hlt
    have he : e ≤ s.length := Index.clamp_le right s.length
    have hassign := ending_assign_of_bounded hmode left right source
    rw [Nat.max_eq_right (Nat.le_of_lt hlt)] at hassign
    exact ⟨_, hassign, ending_delete_insert hmode hs hlt he source⟩

/-- An insertion in front of the last element, by a negative index and by one past the end, and one into an
empty cyclic sequence; a deletion by indices in the second turn; and a range whose bounds are clamped. -/
theorem edits_agree_clamped :
    let s : Sequence Nat := ⟨[0, 1, 2, 3], .cyclic⟩
    let b : Sequence Nat := ⟨[0, 1, 2, 3], .bounded⟩
    (s.length : Int) ≤ Index.greatest ∧ (b.length : Int) ≤ Index.greatest ∧
      (insert 7 [8, 9] s).outcome = .ok () ∧
      (assign 7 7 [8, 9] s).ending = (.ok (), ⟨[0, 1, 2, 8, 9, 3], .cyclic⟩) ∧
      (insert (-1) [8] b).outcome = .ok () ∧
      (assign (-1) (-1) [8] b).ending = (.ok (), ⟨[0, 1, 2, 8, 3], .bounded⟩) ∧
      (insert (-5) [8] (empty .cyclic)).ending = (assign (-5) (-5) [8] (empty .cyclic)).ending ∧
      s.position 5 = .ok 1 ∧ s.position 6 = .ok 2 ∧
      (∃ t, (delete 5 6 s).ending = (.ok (), t) ∧ (assign 1 (2 + 1) [] s).ending = (.ok (), t)) ∧
      ∃ t, (assign (-3) 9 [8] b).ending = (.ok (), t) ∧
        ((do delete 1 (4 - 1); insert 1 [8] : Edit Nat Unit) b).ending = (.ok (), t) := by
  intro s b
  have hs : (s.length : Int) ≤ Index.greatest := by decide
  have hb : (b.length : Int) ≤ Index.greatest := by decide
  have he : ((empty .cyclic : Sequence Nat).length : Int) ≤ Index.greatest := by decide
  obtain ⟨hinsert, hdelete, -⟩ := edits_agree hs
  obtain ⟨hinsert', -, hassign⟩ := edits_agree hb
  have hnegative : (insert (-1) [8] b).outcome = .ok () := by decide
  have hempty := (edits_agree he).1 (-5) [8]
  have hwrapped := (hinsert 7 [8, 9]).1 rfl
  have hfirst : s.position 5 = .ok 1 := by decide
  have hlast : s.position 6 = .ok 2 := by decide
  refine ⟨hs, hb, hwrapped, ?_, hnegative, ?_, hempty.2 (hempty.1 rfl), hfirst, hlast,
    hdelete 5 6 1 2 hfirst hlast (by decide), hassign rfl (-3) 9 [8] (by decide)⟩
  · rw [← (hinsert 7 [8, 9]).2 hwrapped]
    decide
  · rw [← (hinsert' (-1) [8]).2 hnegative]
    decide

end SequenceMachine.Sequence
