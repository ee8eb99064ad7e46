import SequenceMachine.Proofs.Sequence.Faultless

/-!
The elements that single indices name, in sequences up to the largest index. An index of a cyclic
sequence names the position of its remainder by the length. So does an index of a bounded sequence that
is within one length of the beginning, on either side; any other one names nothing. From this follows
which calls for single elements are refused, and why (`delete_eq_error_iff` and the lemmas before it);
every other one is answered.
-/

namespace SequenceMachine

open Outcome (faultless_ok faultless_error faultless_of_eq_ok faultless_ofOption)

variable {α ε : Type}

namespace Index

section Bounded
variable {index : Int} {length : Nat} (hl : (length : Int) ≤ greatest)
include hl

/-- Within one length of the beginning the offset of a negative index is what its remainder adds. -/
theorem natCast_residue_eq_fromStart (hlow : -(length : Int) ≤ index) (hhigh : index < length) :
    (residue index length : Int) = fromStart index length := by
  rw [natCast_residue index (by omega), fromStart, ofLength_eq_self hl]
  split
  · -- A negative index is moved up by one turn, which its remainder does not notice.
    have hturn : (index + length) % (length : Int) = index % length := Int.add_emod_right index length
    rw [← hturn, Int.emod_eq_of_lt (by omega) (by omega)]
  · rw [Int.emod_eq_of_lt (by omega) hhigh]

theorem toNat_fromStart (hlow : -(length : Int) ≤ index) (hhigh : index < length) :
    (fromStart index length).toNat = residue index length := by
  rw [← natCast_residue_eq_fromStart hl hlow hhigh, Int.toNat_natCast]

/-- Within one length of the beginning, on either side, an index names the position of its residue. -/
theorem element_bounded (index : Int) :
    (element index length .bounded : Outcome ε (Option Nat)) =
      .ok (if -(length : Int) ≤ index ∧ index < length then some (residue index length) else none) := by
  have hrange : (0 ≤ fromStart index length ∧ fromStart index length < ofLength length) ↔
      -(length : Int) ≤ index ∧ index < length := by
    unfold fromStart
    rw [ofLength_eq_self hl]
    split <;> omega
  simp only [element, hrange]
  split
  · next hin => rw [toNat_fromStart hl hin.1 hin.2, Outcome.pure_eq_ok]
  · rfl

/-- An insertion also takes the place behind the last element, which only the length itself names. -/
theorem insertion_bounded (index : Int) :
    (insertion index length .bounded : Outcome ε (Option Nat)) =
      .ok (if -(length : Int) ≤ index ∧ index ≤ length then
        some (if index = length then length else residue index length) else none) := by
  have hrange : (0 ≤ fromStart index length ∧ fromStart index length ≤ ofLength length) ↔
      -(length : Int) ≤ index ∧ index ≤ length := by
    unfold fromStart
    rw [ofLength_eq_self hl]
    split <;> omega
  simp only [insertion, hrange]
  split
  · next hin =>
    split
    · next hend =>
      have hlast : fromStart index length = length := by
        rw [fromStart, if_neg (by omega), hend]
      rw [hlast, Int.toNat_natCast, Outcome.pure_eq_ok]
    · next hne => rw [toNat_fromStart hl hin.1 (by omega), Outcome.pure_eq_ok]
  · rfl

/-- Every index has a place in a cyclic sequence, also in an empty one. -/
theorem insertion_cyclic (index : Int) :
    (insertion index length .cyclic : Outcome ε (Option Nat)) = .ok (some (residue index length)) := by
  simp only [insertion]
  split
  · next hzero => simp [hzero]
  · next hne => rw [wrap_eq_residue index hne hl, Outcome.map_ok]

/-- Every index names an element of a cyclic sequence that has any. -/
theorem element_cyclic (index : Int) :
    (element index length .cyclic : Outcome ε (Option Nat)) =
      .ok (if length = 0 then none else some (residue index length)) := by
  simp only [element]
  split
  · rfl
  · next hne => rw [wrap_eq_residue index hne hl, Outcome.map_ok]

end Bounded

theorem faultless_insertion (index : Int) (length : Nat) (mode : Mode) :
    (insertion index length mode : Outcome ε (Option Nat)).Faultless := by
  unfold insertion
  cases mode with
  | bounded =>
    dsimp only
    split
    · exact faultless_ok _
    · exact faultless_ok _
  | cyclic =>
    dsimp only
    split
    · exact faultless_ok _
    · next hne => exact (faultless_wrap index hne).map some

end Index

namespace Sequence

variable {s : Sequence α} {index first last : Int} {value : α} {items : List α} {e : Error}

def Misses (s : Sequence α) (index : Int) : Prop :=
  s.length = 0 ∨ s.mode = .bounded ∧ ¬ (-(s.length : Int) ≤ index ∧ index < s.length)

def MissesPlace (s : Sequence α) (index : Int) : Prop :=
  s.mode = .bounded ∧ ¬ (-(s.length : Int) ≤ index ∧ index ≤ s.length)

def place (s : Sequence α) (index : Int) : Nat :=
  if s.mode = .bounded ∧ index = s.length then s.length else Index.residue index s.length

/-- The position that an index stands for, in exact integers: the remainder by the length in a cyclic
sequence, and in a bounded one the index, which counts from the end if it is negative. -/
def resolved (s : Sequence α) (index : Int) : Int :=
  match s.mode with
  | .cyclic => if s.length = 0 then 0 else index % s.length
  | .bounded => if index < 0 then index + s.length else index

/-- Every index names an element of a cyclic sequence that has one. -/
theorem not_misses_cyclic (hmode : s.mode = .cyclic) (hne : s.length ≠ 0) (index : Int) :
    ¬ s.Misses index := by
  rintro (hzero | ⟨hbounded, _⟩)
  · exact hne hzero
  · cases hmode.symm.trans hbounded

section Resolved
variable (hs : (s.length : Int) ≤ Index.greatest)
include hs

theorem position_of_misses (h : s.Misses index) :
    s.position index = .error (.outOfBounds index s.length) := by
  unfold position
  cases hmode : s.mode with
  | bounded =>
    have hout : ¬ (-(s.length : Int) ≤ index ∧ index < s.length) := by
      rcases h with hzero | ⟨_, hout⟩
      · omega
      · exact hout
    rw [Index.element_bounded hs, if_neg hout]
    rfl
  | cyclic =>
    have hzero : s.length = 0 := h.resolve_right fun hbounded => by simp [hmode] at hbounded
    rw [Index.element_cyclic hs, if_pos hzero]
    rfl

theorem position_of_not_misses (h : ¬ s.Misses index) :
    s.position index = .ok (Index.residue index s.length) := by
  obtain ⟨hne, hin⟩ := not_or.mp h
  unfold position
  cases hmode : s.mode with
  | bounded =>
    have hrange : -(s.length : Int) ≤ index ∧ index < s.length :=
      Decidable.of_not_not fun hout => hin ⟨hmode, hout⟩
    rw [Index.element_bounded hs, if_pos hrange]
    rfl
  | cyclic =>
    rw [Index.element_cyclic hs, if_neg hne]
    rfl

theorem get_eq_ok {a : α} (h : ¬ s.Misses index)
    (ha : s.elements[Index.residue index s.length]? = some a) : s.get index = .ok a := by
  obtain ⟨hlt, rfl⟩ := List.getElem?_eq_some_iff.mp ha
  rw [get, position_of_not_misses hs h, Outcome.ok_bind, read_eq_ok hlt]

theorem insertPosition_of_misses (h : s.MissesPlace index) :
    s.insertPosition index = .error (.outOfBounds index s.length) := by
  obtain ⟨hmode, hout⟩ := h
  unfold insertPosition
  rw [hmode, Index.insertion_bounded hs, if_neg hout]
  rfl

theorem insertPosition_of_not_misses (h : ¬ s.MissesPlace index) :
    s.insertPosition index = .ok (s.place index) := by
  unfold insertPosition place
  cases hmode : s.mode with
  | bounded =>
    have hrange : -(s.length : Int) ≤ index ∧ index ≤ s.length :=
      Decidable.of_not_not fun hout => h ⟨hmode, hout⟩
    rw [Index.insertion_bounded hs, if_pos hrange]
    simp
  | cyclic =>
    rw [Index.insertion_cyclic hs]
    simp

/-- The place of an insertion is the position that the index stands for in exact integers. -/
theorem natCast_place (h : ¬ s.MissesPlace index) : (s.place index : Int) = s.resolved index := by
  unfold place resolved
  cases hmode : s.mode with
  | bounded =>
    have hrange : -(s.length : Int) ≤ index ∧ index ≤ s.length :=
      Decidable.of_not_not fun hout => h ⟨hmode, hout⟩
    simp only [true_and]
    by_cases hend : index = s.length
    · rw [if_pos hend, if_neg (by omega), hend]
    · -- Inside the buffer the remainder is the offset.
      have hfrom := Index.natCast_residue_eq_fromStart hs hrange.1 (by omega)
      rw [if_neg hend, hfrom, Index.fromStart, Index.ofLength_eq_self hs]
  | cyclic =>
    simp only [reduceCtorEq, false_and, if_false]
    by_cases hzero : s.length = 0
    · rw [if_pos hzero, hzero, Index.residue_zero_right]
      rfl
    · rw [if_neg hzero, Index.natCast_residue index hzero]

end Resolved

/-- An exchange answers what a read does. -/
theorem outcome_exchange (index : Int) (value : α) (s : Sequence α) :
    (exchange index value s).outcome = s.get index := by
  rw [exchange, Action.outcome_update, get]
  cases s.position index with
  | ok p =>
    rw [Outcome.ok_bind, Outcome.ok_bind]
    cases (s.read p : Outcome Error α) <;> rfl
  | error e => rfl
  | fault c => rfl

/-- An element can be replaced exactly where it can be read, with the same error otherwise. -/
theorem outcome_set (index : Int) (value : α) (s : Sequence α) :
    (set index value s).outcome = (fun _ => ()) <$> s.get index := by
  rw [← outcome_exchange index value s]
  exact Action.outcome_bind_pure _ _ s

section Refused
variable (hs : (s.length : Int) ≤ Index.greatest)
include hs

/-- A read is refused only for an index without an element. -/
theorem get_eq_error_iff :
    s.get index = .error e ↔ s.Misses index ∧ e = .outOfBounds index s.length := by
  unfold get
  by_cases h : s.Misses index
  · simp [position_of_misses hs h, h, eq_comm]
  · have hread := read_eq_ok (ε := Error) (lt_of_position_eq_ok (position_of_not_misses hs h))
    simp [position_of_not_misses hs h, h, hread]

/-- An insertion is refused only for an index without a place, whatever its items. -/
theorem insert_eq_error_iff :
    (insert index items s).outcome = .error e ↔
      s.MissesPlace index ∧ e = .outOfBounds index s.length := by
  rw [insert_apply]
  by_cases h : s.MissesPlace index
  · simp [insertPosition_of_misses hs h, h, eq_comm]
  · simp [insertPosition_of_not_misses hs h, h]

/-- In a bounded sequence the positions of two indices are in the order of their offsets. -/
theorem residue_lt_residue_iff (hmode : s.mode = .bounded) (hfirst : ¬ s.Misses first)
    (hlast : ¬ s.Misses last) : Index.residue last s.length < Index.residue first s.length ↔
      Index.fromStart last s.length < Index.fromStart first s.length := by
  have hin : ∀ {index : Int}, ¬ s.Misses index → -(s.length : Int) ≤ index ∧ index < s.length :=
    fun h => Decidable.of_not_not fun hout => h (.inr ⟨hmode, hout⟩)
  have hfirst' := Index.natCast_residue_eq_fromStart hs (hin hfirst).1 (hin hfirst).2
  have hlast' := Index.natCast_residue_eq_fromStart hs (hin hlast).1 (hin hlast).2
  omega

/-- The first bound is looked at before the last one, and their order after both. -/
theorem delete_eq_error_iff :
    (delete first last s).outcome = .error e ↔
      s.Misses first ∧ e = .outOfBounds first s.length ∨
      ¬ s.Misses first ∧ s.Misses last ∧ e = .outOfBounds last s.length ∨
      ¬ s.Misses first ∧ ¬ s.Misses last ∧ s.mode = .bounded ∧
        Index.fromStart last s.length < Index.fromStart first s.length ∧
        e = .invertedRange first last s.length := by
  by_cases hfirst : s.Misses first
  · rw [delete_apply_of_first_error (position_of_misses hs hfirst)]
    simp [hfirst, eq_comm]
  have hstart := position_of_not_misses hs hfirst
  by_cases hlast : s.Misses last
  · rw [delete_apply_of_last_error hstart (position_of_misses hs hlast)]
    simp [hfirst, hlast, eq_comm]
  have hstop := position_of_not_misses hs hlast
  by_cases hle : Index.residue first s.length ≤ Index.residue last s.length
  · rw [delete_apply_of_le hstart hstop hle]
    have hinverted : s.mode = .bounded →
        ¬ Index.fromStart last s.length < Index.fromStart first s.length := by
      intro hmode
      rw [← residue_lt_residue_iff hs hmode hfirst hlast]
      omega
    simp only [reduceCtorEq, hfirst, hlast, false_and, not_false_eq_true, true_and, false_or, false_iff]
    rintro ⟨hmode, hlt, -⟩
    exact hinverted hmode hlt
  have hlt : Index.residue last s.length < Index.residue first s.length := Nat.not_le.mp hle
  -- Only a bounded sequence refuses the inverted range; in a cyclic one it runs across the end.
  cases hmode : s.mode with
  | bounded =>
    rw [residue_lt_residue_iff hs hmode hfirst hlast] at hlt
    rw [delete_apply_bounded hstart hstop hmode (Nat.not_le.mp hle)]
    simp [hfirst, hlast, hlt, eq_comm]
  | cyclic =>
    rw [delete_apply_cyclic hstart hstop hmode hlt]
    simp [hfirst, hlast]

end Refused

section Answered
variable (s : Sequence α)

theorem faultless_outcome_exchange (index : Int) (value : α) :
    (exchange index value s).outcome.Faultless := by
  rw [outcome_exchange]
  exact faultless_get s index

theorem faultless_outcome_set (index : Int) (value : α) : (set index value s).outcome.Faultless := by
  rw [outcome_set]
  exact (faultless_get s index).map _

theorem faultless_outcome_insert (index : Int) (items : List α) :
    (insert index items s).outcome.Faultless := by
  have hplace : (s.insertPosition index).Faultless :=
    (Index.faultless_insertion index s.length s.mode).bind fun found _ => faultless_ofOption _ found
  rw [insert_apply]
  cases hp : s.insertPosition index with
  | ok p => exact faultless_ok _
  | error e => exact faultless_error e
  | fault c => exact absurd hp (hplace c)

/-- A deletion is carried out, or it is refused and keeps the sequence. -/
theorem delete_cases (first last : Int) :
    (∃ elements, delete first last s = ⟨.ok (), { s with elements := elements }, []⟩) ∨
      ∃ e, delete first last s = ⟨.error e, s, []⟩ := by
  rcases (faultless_position s first).answers_or_fails with ⟨start, hstart⟩ | ⟨e, hfirst⟩
  · rcases (faultless_position s last).answers_or_fails with ⟨stop, hstop⟩ | ⟨e, hlast⟩
    · rcases Nat.lt_or_ge stop start with hlt | hle
      · cases hmode : s.mode with
        | bounded => exact .inr ⟨_, delete_apply_bounded hstart hstop hmode hlt⟩
        | cyclic =>
          have happly := delete_apply_cyclic hstart hstop hmode hlt
          rw [hmode] at happly
          exact .inl ⟨_, happly⟩
      · exact .inl ⟨_, delete_apply_of_le hstart hstop hle⟩
    · exact .inr ⟨e, delete_apply_of_last_error hstart hlast⟩
  · exact .inr ⟨e, delete_apply_of_first_error hfirst last⟩

theorem faultless_outcome_delete (first last : Int) : (delete first last s).outcome.Faultless := by
  rcases delete_cases s first last with ⟨elements, hdone⟩ | ⟨e, hrefused⟩
  · rw [hdone]
    exact faultless_ok _
  · rw [hrefused]
    exact faultless_error e

end Answered

end Sequence

end SequenceMachine
