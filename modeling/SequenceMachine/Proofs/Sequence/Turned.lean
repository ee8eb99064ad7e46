import SequenceMachine.Proofs.Sequence.Rotation

namespace SequenceMachine.Sequence

variable {α : Type} {s : Sequence α} {left right : Int}

/-- The sequence with each element moved `steps` positions on, around the end of the buffer. -/
def turned (steps : Int) (s : Sequence α) : Sequence α := s.rotate (Index.residue (-steps) s.length)

section Turned
variable (s) (steps : Int)

@[simp] theorem mode_turned : (s.turned steps).mode = s.mode := rfl

@[simp] theorem length_turned : (s.turned steps).length = s.length :=
  length_rotate (Index.residue_le (-steps) s.length)

/-- What is read of a turned sequence is read as many positions earlier before the turn. -/
theorem turns_turned (start : Int) (count : Nat) :
    (s.turned steps).turns (steps + start) count = s.turns start count := by
  have hback : -steps + (steps + start) = start := by omega
  rw [turned, turns_rotate (Index.residue_le _ _), Int.add_comm, turns_residue_add, hback]

theorem turns_zero_length : s.turns 0 s.length = s.elements := by
  rw [← Int.natCast_zero, turns_whole (Nat.zero_le _), List.drop_zero, List.take_zero, List.append_nil]

/-- Read from the number of steps on, a turned sequence is what it was. -/
theorem turns_turned_length : (s.turned steps).turns steps s.length = s.elements := by
  have hturns := turns_turned s steps 0 s.length
  rwa [Int.add_zero, turns_zero_length] at hturns

/-- Each element is found as many positions further on. -/
theorem getElem?_turned {j : Nat} (hj : j < s.length) :
    (s.turned steps).elements[Index.residue (steps + j) s.length]? = s.elements[j]? := by
  have hne : (s.turned steps).length ≠ 0 := by
    rw [length_turned]
    omega
  have hread := getElem?_turns (s.turned steps) steps hne hj
  rw [turns_turned_length, length_turned] at hread
  exact hread.symm

/-- Two turns are one over the sum of their steps. -/
theorem turned_turned (more : Int) : (s.turned steps).turned more = s.turned (steps + more) := by
  have hlength : ((s.turned steps).turned more).length = s.length := by
    rw [length_turned, length_turned]
  -- Both read the buffer before the turns from the sum of the steps on.
  have hmode : ((s.turned steps).turned more).mode = (s.turned (steps + more)).mode := rfl
  apply eq_of_turns_eq (more + steps) hmode
  · rw [hlength, length_turned]
  · calc
      ((s.turned steps).turned more).turns (more + steps) ((s.turned steps).turned more).length =
          (s.turned steps).turns steps s.length := by rw [hlength, turns_turned]
      _ = s.elements := turns_turned_length s steps
      _ = (s.turned (steps + more)).turns (steps + more) s.length :=
        (turns_turned_length s (steps + more)).symm
      _ = (s.turned (steps + more)).turns (more + steps) (s.turned (steps + more)).length := by
        rw [length_turned, Int.add_comm]

end Turned

section Cyclic
variable (hmode : s.mode = .cyclic) (hs : (s.length : Int) ≤ Index.greatest)
include hmode hs

/-- A whole turn is always filled by the sequence itself, which it turns. -/
theorem ending_assignSelf_turn (start : Int) :
    (assignSelf start (start + s.length) s).ending = (.ok (), s.turned start) := by
  have hspan : (start + (s.length : Int) - start).toNat = s.length := by omega
  have hfill : s.elements.length = (start + (s.length : Int) - start).toNat := hspan.symm
  rw [ending_assignSelf]
  obtain ⟨t, ht⟩ := exists_accepted_of_fill hmode hs (by omega) hfill
  obtain ⟨hlength, hwritten⟩ := turns_of_filled hmode hs hfill ht
  -- Nothing is left of the old turn behind the source, which is what the turned sequence reads.
  have hturn : t.turns start t.length = (s.turned start).turns start (s.turned start).length := by
    have hrest : s.length - s.elements.length = 0 := Nat.sub_self s.length
    have hnothing : s.turns (start + s.elements.length) 0 = [] := takeTurns_zero _ _
    rw [hwritten, hrest, hnothing, List.append_nil, length_turned, turns_turned_length]
  have hmode' : t.mode = (s.turned start).mode := by
    rw [mode_turned, mode_of_ending_assign ht]
  have heq : t = s.turned start := by
    apply eq_of_turns_eq start hmode' _ hturn
    rw [hlength, length_turned]
  rw [ht, heq]

/-- Over less than a turn the sequence is inserted if the range stays in the buffer; any other range is
refused. -/
theorem ending_assignSelf_of_ne (hne : right - left ≠ s.length) :
    (assignSelf left right s).ending =
      if right ≤ left ∨ right - left ≤ s.length ∧
          (Index.residue left s.length : Int) + (right - left) ≤ s.length then
        (.ok (), { s with
          elements := s.elements.take (Index.residue left s.length) ++ s.elements
            ++ s.elements.drop (Index.residue left s.length + (right - left).toNat) })
      else
        (.error (if (s.length : Int) < right - left then .overWrapped left right s.length
          else .bridgeSize (right - left).toNat s.length), s) := by
  rw [ending_assignSelf]
  by_cases hempty : right ≤ left
  · have hspan : (right - left).toNat = 0 := by omega
    rw [if_pos (.inl hempty), hspan, assign_cyclic_of_le hmode hs hempty]
    rfl
  by_cases hover : (s.length : Int) < right - left
  · rw [if_neg (by omega), if_pos hover, assign_cyclic_of_lt hmode hover]
    rfl
  obtain ⟨span, rfl⟩ : ∃ span : Nat, right = left + span := ⟨(right - left).toNat, by omega⟩
  have hspan : (left + (span : Int) - left).toNat = span := by omega
  rw [hspan]
  by_cases hend : Index.residue left s.length + span ≤ s.length
  · rw [if_pos (by omega), assign_cyclic_inside hmode hs (by omega) hend]
    rfl
  · have hshort : s.elements.length ≠ span := by
      change s.length ≠ span
      omega
    rw [if_neg (by omega), if_neg hover,
      assign_cyclic_across_of_ne hmode hs (by omega) (by omega) hshort]
    rfl

end Cyclic

/-- Assigning a cyclic sequence to a range of itself. Over a whole turn this succeeds, keeps the length and
moves the element at each position `j` to the position that `start + j` names; doing it twice is doing it
once from the sum of the left bounds on. Over a range of any other length it succeeds if and only if the
range is empty, inverted or ends in the buffer, and then puts the sequence in the place of the range.
Otherwise the sequence stays as it was, and the error tells a range of more than one turn from one that
crosses the end of the buffer. -/
theorem assignSelf_turns (hmode : s.mode = .cyclic) (hs : (s.length : Int) ≤ Index.greatest) :
    (∀ start : Int, ∃ t, (assignSelf start (start + s.length) s).ending = (.ok (), t) ∧
      t.length = s.length ∧
      (∀ j, j < s.length → t.elements[Index.residue (start + j) s.length]? = s.elements[j]?) ∧
      ∀ next : Int, (assignSelf next (next + s.length) t).ending =
        (assignSelf (start + next) (start + next + s.length) s).ending) ∧
    ∀ left right : Int, right - left ≠ s.length →
      let n := s.length
      let p := Index.residue left n
      let w := (right - left).toNat
      let r := assignSelf left right s
      let fits := right ≤ left ∨ right - left ≤ n ∧ (p : Int) + (right - left) ≤ n
      (r.outcome = .ok () ↔ fits) ∧
      (fits → r.state = { s with elements := s.elements.take p ++ s.elements ++ s.elements.drop (p + w) }) ∧
      (¬ fits → r.state = s ∧ r.outcome =
        .error (if (n : Int) < right - left then .overWrapped left right n else .bridgeSize w n)) := by
  constructor
  · intro start
    refine ⟨s.turned start, ending_assignSelf_turn hmode hs start, length_turned s start, ?_, ?_⟩
    · intro j hj
      exact getElem?_turned s start hj
    · intro next
      have hagain := ending_assignSelf_turn (s := s.turned start) hmode (by rwa [length_turned]) next
      rw [length_turned, turned_turned] at hagain
      rw [hagain, ending_assignSelf_turn hmode hs]
  · intro left right hother n p w r fits
    have hending := ending_assignSelf_of_ne hmode hs hother
    by_cases hfits : fits
    · rw [if_pos hfits] at hending
      have houtcome : r.outcome = .ok () := congrArg Prod.fst hending
      refine ⟨⟨fun _ => hfits, fun _ => houtcome⟩, ?_, fun hnot => absurd hfits hnot⟩
      intro _
      exact congrArg Prod.snd hending
    · rw [if_neg hfits] at hending
      have houtcome : r.outcome = .error
          (if (n : Int) < right - left then .overWrapped left right n else .bridgeSize w n) :=
        congrArg Prod.fst hending
      refine ⟨⟨?_, fun hfit => absurd hfit hfits⟩, fun hfit => absurd hfit hfits, ?_⟩
      · intro hok
        cases hok.symm.trans houtcome
      · intro _
        exact ⟨congrArg Prod.snd hending, houtcome⟩

/-- A sequence of length 4, turned back by 3 and then on by 6. A range across its end is refused, and so is
one of more than one turn, but not one at the end of the buffer. -/
theorem assignSelf_turns_across_end :
    let s : Sequence Nat := ⟨[0, 1, 2, 3], .cyclic⟩
    s.mode = .cyclic ∧ (s.length : Int) ≤ Index.greatest ∧
      (∃ t, (assignSelf (-3) 1 s).ending = (.ok (), t) ∧ t.elements[1]? = some 0 ∧
        (assignSelf 6 10 t).ending = (assignSelf 3 7 s).ending) ∧
      (assignSelf 7 8 s).state.elements = [0, 1, 2, 0, 1, 2, 3] ∧
      (assignSelf 7 9 s).outcome = .error (.bridgeSize 2 4) ∧
      (assignSelf 7 12 s).outcome = .error (.overWrapped 7 12 4) := by
  intro s
  have hs : (s.length : Int) ≤ Index.greatest := by decide
  obtain ⟨hturn, hother⟩ := assignSelf_turns (s := s) rfl hs
  obtain ⟨t, ht, -, hmoved, hagain⟩ := hturn (-3)
  have hinside := (hother 7 8 (by decide)).2.1 (by decide)
  have hacross := (hother 7 9 (by decide)).2.2 (by decide)
  have hover := (hother 7 12 (by decide)).2.2 (by decide)
  refine ⟨rfl, hs, ⟨t, ht, hmoved 0 (by decide), hagain 6⟩, ?_, hacross.2, hover.2⟩
  rw [hinside]
  decide

end SequenceMachine.Sequence
