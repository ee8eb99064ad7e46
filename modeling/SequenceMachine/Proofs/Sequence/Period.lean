import SequenceMachine.Proofs.Sequence.Edits

/-!
Whole turns. Bounds that are moved by a multiple of the length name the same positions of a cyclic
sequence, and stay as far apart as they were. An operation either resolves its bounds to positions or
compares them with each other, so it does not notice the turns (`indices_modulo_length`). Only an error
that repeats the bounds of the request shows them (`Error.moved`).
-/

namespace SequenceMachine

namespace Index

/-- Whole turns lead back to the same position. -/
theorem residue_add_turns (index turns : Int) (length : Nat) :
    residue (index + turns * length) length = residue index length := by
  rw [residue, residue, Int.add_mul_emod_self_right]

/-- Bounds that are moved together stay as far apart. -/
theorem span_add (left right steps : Int) : span (left + steps) (right + steps) = span left right := by
  rw [span, span, Int.add_sub_add_right]

end Index

namespace Sequence

variable {α ε : Type} {s : Sequence α}

/-- The error as it is for bounds that lie `steps` further on. -/
def Error.moved (steps : Int) : Error → Error
  | .overWrapped left right length => .overWrapped (left + steps) (right + steps) length
  | e => e

theorem turns_add_turns (s : Sequence α) (start turns : Int) (count : Nat) :
    s.turns (start + turns * s.length) count = s.turns start count := by
  rw [Sequence.turns, Sequence.turns, Index.residue_add_turns]

section Target
variable (hmode : s.mode = .cyclic) (turns : Int)
include hmode

theorem sliceLength_add_turns (left right : Int) :
    s.sliceLength (left + turns * s.length) (right + turns * s.length) = s.sliceLength left right := by
  simp only [sliceLength, hmode, Index.span_add, Int.add_le_add_iff_right]

variable (hs : (s.length : Int) ≤ Index.greatest)
include hs

/-- Bounds that are some turns further on have the same target, or are refused in the same way. -/
theorem target_add_turns (left right : Int) (n : Nat) :
    s.target (left + turns * s.length) (right + turns * s.length) n =
      (s.target left right n).mapError (Error.moved (turns * s.length)) := by
  generalize hsteps : turns * (s.length : Int) = steps
  have hstart : Index.residue (left + steps) s.length = Index.residue left s.length := by
    rw [← hsteps, Index.residue_add_turns]
  -- Which case of the target it is depends on the distance of the bounds and on the residue of the left one.
  by_cases hempty : right ≤ left
  · have hempty' : right + steps ≤ left + steps := by omega
    rw [target_cyclic_of_le hmode hs hempty, target_cyclic_of_le hmode hs hempty', hstart]
    rfl
  by_cases hover : (s.length : Int) < right - left
  · -- The only error that repeats the bounds.
    have hover' : (s.length : Int) < right + steps - (left + steps) := by omega
    rw [target_cyclic_of_lt hmode hover, target_cyclic_of_lt hmode hover']
    rfl
  obtain ⟨span, rfl⟩ : ∃ span : Nat, right = left + span := ⟨(right - left).toNat, by omega⟩
  have hright : left + span + steps = left + steps + span := by omega
  rw [hright]
  by_cases hend : Index.residue left s.length + span ≤ s.length
  · have hend' : Index.residue (left + steps) s.length + span ≤ s.length := by rwa [hstart]
    rw [target_cyclic_inside hmode hs (by omega) hend, target_cyclic_inside hmode hs (by omega) hend',
      hstart]
    rfl
  · have hend' : s.length < Index.residue (left + steps) s.length + span := by omega
    rw [target_cyclic_across hmode hs (by omega) (Nat.lt_of_not_le hend),
      target_cyclic_across hmode hs (by omega) hend', hstart]
    split <;> rfl

/-- An assignment does the same whole turns further on, but for the bounds in its error. -/
theorem ending_assign_add_turns (left right : Int) (source : List α) :
    let r := assign left right source s
    (assign (left + turns * s.length) (right + turns * s.length) source s).ending =
      (r.outcome.mapError (Error.moved (turns * s.length)), r.state) := by
  intro r
  have hr : r = assign left right source s := rfl
  have hmoved := target_add_turns hmode turns hs left right source.length
  cases htarget : s.target left right source.length with
  | ok found =>
    rw [htarget, Outcome.mapError_ok] at hmoved
    rw [hr, assign_apply_of_target htarget, assign_apply_of_target hmoved]
    rfl
  | error e =>
    rw [htarget, Outcome.mapError_error] at hmoved
    rw [hr, assign_apply_of_error htarget, assign_apply_of_error hmoved]
    rfl
  | fault c =>
    rw [htarget, Outcome.mapError_fault] at hmoved
    rw [hr, assign_apply_of_fault htarget, assign_apply_of_fault hmoved]
    rfl

theorem ending_assignSelf_add_turns (left right : Int) :
    let r := assignSelf left right s
    (assignSelf (left + turns * s.length) (right + turns * s.length) s).ending =
      (r.outcome.mapError (Error.moved (turns * s.length)), r.state) := by
  intro r
  obtain ⟨houtcome, hstate⟩ := Prod.mk.inj (ending_assignSelf left right s)
  have hmoved := ending_assign_add_turns hmode turns hs left right s.elements
  rw [ending_assignSelf, hmoved, ← houtcome, ← hstate]

theorem assignedLength_add_turns (left right : Int) (n : Nat) :
    s.assignedLength (left + turns * s.length) (right + turns * s.length) n =
      (s.assignedLength left right n).mapError (Error.moved (turns * s.length)) := by
  unfold assignedLength
  rw [target_add_turns hmode turns hs]
  cases htarget : s.target left right n with
  | ok found =>
    cases found with
    | contiguous start stop =>
      -- What is computed from a target can fault, but is not refused.
      obtain ⟨hle, hstop⟩ : start ≤ stop ∧ stop ≤ s.length := fits_of_target_eq_ok htarget
      dsimp only [Outcome.mapError_ok, Outcome.ok_bind]
      rw [Size.sub_eq_ok hle, Outcome.ok_bind, Size.sub_eq_ok (by omega), Outcome.ok_bind, Size.add]
      split <;> rfl
    | bridging start stop => rfl
  | error e => rfl
  | fault c => rfl

end Target

section Position
variable (hmode : s.mode = .cyclic) (hs : (s.length : Int) ≤ Index.greatest) (turns : Int)
include hmode hs

theorem insertPosition_add_turns (index : Int) :
    s.insertPosition (index + turns * s.length) = s.insertPosition index := by
  rw [insertPosition_of_not_misses hs (not_missesPlace_cyclic hmode),
    insertPosition_of_not_misses hs (not_missesPlace_cyclic hmode), place_cyclic hmode,
    place_cyclic hmode, Index.residue_add_turns]

variable (hne : s.length ≠ 0)
include hne

theorem position_add_turns (index : Int) :
    s.position (index + turns * s.length) = s.position index := by
  rw [position_of_not_misses hs (not_misses_cyclic hmode hne _),
    position_of_not_misses hs (not_misses_cyclic hmode hne _), Index.residue_add_turns]

/-- A deletion resolves each index by itself, so they may be moved by different turns. -/
theorem delete_add_turns (more first last : Int) :
    delete (first + turns * s.length) (last + more * s.length) s = delete first last s := by
  obtain ⟨start, hstart⟩ : ∃ p, s.position first = .ok p :=
    ⟨_, position_of_not_misses hs (not_misses_cyclic hmode hne first)⟩
  obtain ⟨stop, hstop⟩ : ∃ p, s.position last = .ok p :=
    ⟨_, position_of_not_misses hs (not_misses_cyclic hmode hne last)⟩
  have hstart' : s.position (first + turns * s.length) = .ok start := by
    rw [position_add_turns hmode hs turns hne, hstart]
  have hstop' : s.position (last + more * s.length) = .ok stop := by
    rw [position_add_turns hmode hs more hne, hstop]
  -- Both deletions find the same two positions, so both cross the end of the buffer or neither does.
  rcases Nat.lt_or_ge stop start with hlt | hle
  · rw [delete_apply_cyclic hstart' hstop' hmode hlt, delete_apply_cyclic hstart hstop hmode hlt]
  · rw [delete_apply_of_le hstart' hstop' hle, delete_apply_of_le hstart hstop hle]

/-- A slice does not notice whole turns. -/
theorem slice_add_turns (left right : Int) :
    (s.slice (left + turns * s.length) (right + turns * s.length) : Outcome ε (Sequence α)) =
      s.slice left right := by
  by_cases hempty : right ≤ left
  · rw [slice_cyclic_of_le hmode hempty, slice_cyclic_of_le hmode (by omega)]
  · rw [slice_cyclic_of_lt hmode hs hne (by omega), slice_cyclic_of_lt hmode hs hne (by omega),
      Index.span_add, turns_add_turns]

end Position

/-- A cyclic sequence that is not empty depends on indices only modulo its length. Reads, replacements and
insertions give and leave the same some turns further on, and so do deletions, each of whose ends can be
moved on its own. Slices and assignments do if both bounds are moved together: what is read, predicted and
written is the same, and so is an error, but for the bounds of the request if it repeats them. -/
theorem indices_modulo_length (hmode : s.mode = .cyclic) (hne : s.length ≠ 0)
    (hs : (s.length : Int) ≤ Index.greatest) (turns more : Int) :
    let steps := turns * (s.length : Int)
    (∀ index, s.get (index + steps) = s.get index) ∧
    (∀ index value, set (index + steps) value s = set index value s) ∧
    (∀ index items, insert (index + steps) items s = insert index items s) ∧
    (∀ first last, delete (first + steps) (last + more * (s.length : Int)) s = delete first last s) ∧
    ∀ left right,
      (s.slice (left + steps) (right + steps) : Outcome Error (Sequence α)) = s.slice left right ∧
      s.sliceLength (left + steps) (right + steps) = s.sliceLength left right ∧
      (∀ source, (assign (left + steps) (right + steps) source s).ending =
        ((assign left right source s).outcome.mapError (Error.moved steps),
          (assign left right source s).state)) ∧
      (assignSelf (left + steps) (right + steps) s).ending =
        ((assignSelf left right s).outcome.mapError (Error.moved steps),
          (assignSelf left right s).state) ∧
      ∀ n, s.assignedLength (left + steps) (right + steps) n =
        (s.assignedLength left right n).mapError (Error.moved steps) := by
  intro steps
  have hposition := position_add_turns hmode hs turns hne
  have hplace := insertPosition_add_turns hmode hs turns
  refine ⟨?_, ?_, ?_, delete_add_turns hmode hs turns hne more, ?_⟩
  · intro index
    rw [get, get, hposition]
  · intro index value
    rw [set_apply, set_apply, hposition]
  · intro index items
    rw [insert_apply, insert_apply, hplace]
  · intro left right
    refine ⟨slice_add_turns hmode hs turns hne left right, sliceLength_add_turns hmode turns left right,
      ending_assign_add_turns hmode turns hs left right, ?_,
      assignedLength_add_turns hmode turns hs left right⟩
    exact ending_assignSelf_add_turns hmode turns hs left right

/-- Two turns back. The deletion from the last element to the first one has one end moved further. A range
of more than one turn is refused with its own bounds, and one across the end of the buffer that is not
filled with the same error as before. -/
theorem indices_modulo_length_backwards :
    let s : Sequence Nat := ⟨[0, 1, 2, 3], .cyclic⟩
    s.mode = .cyclic ∧ s.length ≠ 0 ∧ (s.length : Int) ≤ Index.greatest ∧
      s.get (7 + -2 * 4) = s.get 7 ∧
      delete (3 + -2 * 4) (0 + 5 * 4) s = delete 3 0 s ∧
      (delete 3 0 s).state.elements = [1, 2] ∧
      (assign (3 + -2 * 4) (8 + -2 * 4) [9] s).ending = (.error (.overWrapped (-5) 0 4), s) ∧
      (assign (3 + -2 * 4) (5 + -2 * 4) [9] s).ending = (.error (.bridgeSize 2 1), s) ∧
      (assign (3 + -2 * 4) (5 + -2 * 4) [8, 9] s).ending = (.ok (), ⟨[9, 1, 2, 8], .cyclic⟩) := by
  intro s
  have hne : s.length ≠ 0 := by decide
  have hs : (s.length : Int) ≤ Index.greatest := by decide
  obtain ⟨hget, -, -, hdelete, hranges⟩ := indices_modulo_length (s := s) rfl hne hs (-2) 5
  have hover := (hranges 3 8).2.2.1 [9]
  have hshort := (hranges 3 5).2.2.1 [9]
  have hfilled := (hranges 3 5).2.2.1 [8, 9]
  have hunfilled : assign 3 5 [9] s =
      ⟨.error (.bridgeSize 2 1), s, [.refused 3 5 4 1 (.bridgeSize 2 1)]⟩ :=
    assign_apply_of_error (by decide)
  have hwritten : assign 3 5 [8, 9] s = ⟨.ok (), ⟨[9, 1, 2, 8], .cyclic⟩, [.bridging 3 1 2]⟩ :=
    assign_apply_of_target (t := .bridging 3 1) (by decide)
  rw [hunfilled] at hshort
  rw [hwritten] at hfilled
  exact ⟨rfl, hne, hs, hget 7, hdelete 3 0, by decide, hover, hshort, hfilled⟩

end Sequence

end SequenceMachine
