import SequenceMachine.Proofs.Residue
import SequenceMachine.Sequence.Slice

/-!
What a slice holds. A slice of a bounded sequence is the range between its clamped bounds. A slice of a
cyclic sequence is a number of elements read from its left bound on, around the end of the buffer
(`turns`). One whole turn, from any index, determines the sequence.
-/

namespace SequenceMachine

theorem Index.clamp_natCast {position length : Nat} (h : position ≤ length)
    (hl : (length : Int) ≤ greatest) : clamp position length = position := by
  have hfrom : fromStart position length = position := by
    rw [fromStart, if_neg (by omega)]
  rw [clamp, hfrom, ofLength_eq_self hl]
  split
  · omega
  · split <;> omega

theorem Index.span_eq_toNat {left right : Int} (h₀ : left ≤ right) (h₁ : right - left ≤ Size.max) :
    span left right = (right - left).toNat := by
  rw [span, Size.ofInt?_eq_some (by omega) h₁, Option.getD_some]

namespace Sequence

variable {α ε : Type}

section TakeTurns
variable (buffer : List α)

@[simp] theorem takeTurns_zero (rest : List α) : takeTurns buffer rest 0 = [] := by
  cases rest <;> rfl

/-- Where a turn is over the next one begins. -/
theorem takeTurns_nil (n : Nat) : takeTurns buffer [] n = takeTurns buffer buffer n := by
  cases n with
  | zero => rw [takeTurns_zero, takeTurns_zero]
  | succ n => cases buffer <;> rfl

/-- After what is left of a turn, the buffer is read from its beginning again. -/
theorem takeTurns_eq_append (rest : List α) (n : Nat) :
    takeTurns buffer rest n = rest.take n ++ takeTurns buffer buffer (n - rest.length) := by
  induction n generalizing rest with
  | zero => simp
  | succ n ih =>
    cases rest with
    | nil => rw [takeTurns_nil, List.take_nil, List.nil_append, List.length_nil, Nat.sub_zero]
    | cons a rest =>
      have hlength : n + 1 - (a :: rest).length = n - rest.length := by
        rw [List.length_cons]
        omega
      rw [takeTurns, ih, hlength, List.take_succ_cons, List.cons_append]

theorem takeTurns_self {n : Nat} (h : n ≤ buffer.length) : takeTurns buffer buffer n = buffer.take n := by
  rw [takeTurns_eq_append, Nat.sub_eq_zero_of_le h, takeTurns_zero, List.append_nil]

end TakeTurns

/-- The `count` elements from an index of a cyclic sequence on, around the end of the buffer as often as
that takes. -/
def turns (s : Sequence α) (start : Int) (count : Nat) : List α :=
  takeTurns s.elements (s.elements.drop (Index.residue start s.length)) count

section Turns
variable (s : Sequence α) (start : Int)

theorem turns_of_length_eq_zero (h : s.length = 0) (count : Nat) : s.turns start count = [] := by
  have hnil : s.elements = [] := List.length_eq_zero_iff.mp h
  rw [turns, hnil, List.drop_nil]
  cases count <;> rfl

/-- From a sequence that has elements any number of them can be read. -/
theorem length_turns (h : s.length ≠ 0) (count : Nat) : (s.turns start count).length = count := by
  apply length_takeTurns
  intro hnil
  exact h (List.length_eq_zero_iff.mpr hnil)

/-- An empty sequence has no elements to read, but no count within one turn asks for any. -/
theorem length_turns_of_le {count : Nat} (h : count ≤ s.length) :
    (s.turns start count).length = count := by
  by_cases hs : s.length = 0
  · rw [turns_of_length_eq_zero s start hs, List.length_nil]
    omega
  · exact length_turns s start hs count

/-- What is read stands in the buffer at the residue of its index. -/
theorem getElem?_turns {count j : Nat} (h : s.length ≠ 0) (hj : j < count) :
    (s.turns start count)[j]? = s.elements[Index.residue (start + j) s.length]? := by
  have hnil : s.elements ≠ [] := by
    intro hnil
    exact h (List.length_eq_zero_iff.mpr hnil)
  have hstart : Index.residue start s.length ≤ s.elements.length :=
    Nat.le_of_lt (Index.residue_lt start h)
  rw [turns, getElem?_takeTurns hnil hstart hj, Index.residue_add start j h]
  rfl

/-- Reading from the position of an index on is reading from the index on. -/
theorem turns_residue_add (steps : Int) (count : Nat) :
    s.turns (Index.residue start s.length + steps) count = s.turns (start + steps) count := by
  rw [turns, Index.residue_residue_add, turns]

theorem turns_residue (count : Nat) :
    s.turns (Index.residue start s.length) count = s.turns start count := by
  have hturns := turns_residue_add s start 0 count
  rwa [Int.add_zero, Int.add_zero] at hturns

/-- Reading on where a first part ended gives the second part. -/
theorem turns_add (m n : Nat) : s.turns start (m + n) = s.turns start m ++ s.turns (start + m) n := by
  by_cases hs : s.length = 0
  · simp only [turns_of_length_eq_zero s _ hs, List.append_nil]
  · have hm : (s.turns start m).length = m := length_turns s start hs m
    apply List.ext_getElem?
    intro j
    rw [List.getElem?_append, hm]
    by_cases hj : j < m
    · rw [if_pos hj, getElem?_turns s start hs (by omega), getElem?_turns s start hs hj]
    · rw [if_neg hj]
      by_cases hjn : j < m + n
      · have hsteps : start + (m : Int) + ((j - m : Nat) : Int) = start + j := by omega
        rw [getElem?_turns s start hs hjn, getElem?_turns s _ hs (by omega), hsteps]
      · rw [List.getElem?_eq_none (by rw [length_turns s start hs]; omega),
          List.getElem?_eq_none (by rw [length_turns s _ hs]; omega)]

theorem take_turns {m n : Nat} (h : m ≤ n) : (s.turns start n).take m = s.turns start m := by
  by_cases hs : s.length = 0
  · simp only [turns_of_length_eq_zero s _ hs, List.take_nil]
  · have hsplit : s.turns start n = s.turns start m ++ s.turns (start + m) (n - m) := by
      rw [← turns_add, Nat.add_sub_cancel' h]
    have hm : m = (s.turns start m).length := (length_turns s start hs m).symm
    rw [hsplit, List.take_append_of_le_length (Nat.le_of_eq hm)]
    exact List.take_of_length_le (Nat.le_of_eq hm.symm)

end Turns

section Position
variable {s : Sequence α} {position count : Nat}

/-- The end of the buffer is also its beginning. -/
theorem turns_natCast (s : Sequence α) (h : position ≤ s.length) (count : Nat) :
    s.turns position count = takeTurns s.elements (s.elements.drop position) count := by
  rcases Nat.lt_or_eq_of_le h with hlt | heq
  · rw [turns, Index.residue_natCast hlt]
  · have hstart : Index.residue position s.length = 0 := by
      rw [heq]
      by_cases hs : s.length = 0
      · rw [hs, Index.residue_zero_right]
      · apply Int.ofNat.inj
        rw [Int.ofNat_eq_natCast, Index.natCast_residue _ hs, Int.emod_self]
        rfl
    have hend : s.elements.drop position = [] := List.drop_eq_nil_of_le (Nat.le_of_eq heq.symm)
    rw [turns, hstart, hend, List.drop_zero, takeTurns_nil]

/-- What does not reach past the end is one range of the buffer. -/
theorem turns_inside (h : position + count ≤ s.length) :
    s.turns position count = (s.elements.drop position).take count := by
  have hrest : count - (s.elements.drop position).length = 0 := by
    rw [List.length_drop]
    change count - (s.length - position) = 0
    omega
  rw [turns_natCast s (by omega), takeTurns_eq_append, hrest, takeTurns_zero, List.append_nil]

/-- What reaches past the end, within one turn, is two ranges of the buffer. -/
theorem turns_across (hp : position ≤ s.length) (hc : count ≤ s.length)
    (h : s.length ≤ position + count) :
    s.turns position count =
      s.elements.drop position ++ s.elements.take (position + count - s.length) := by
  have hlength : (s.elements.drop position).length = s.length - position := List.length_drop
  have hrest : count - (s.length - position) = position + count - s.length := by omega
  have hturn : position + count - s.length ≤ s.elements.length := by
    change _ ≤ s.length
    omega
  rw [turns_natCast s hp, takeTurns_eq_append, hlength, hrest, takeTurns_self _ hturn,
    List.take_of_length_le (by omega)]

theorem turns_whole (hp : position ≤ s.length) :
    s.turns position s.length = s.elements.drop position ++ s.elements.take position := by
  rw [turns_across hp (Nat.le_refl _) (Nat.le_add_left _ _), Nat.add_sub_cancel]

end Position

/-- One whole turn determines a sequence. -/
theorem eq_of_turns_eq {s t : Sequence α} (start : Int) (hmode : s.mode = t.mode)
    (hlength : s.length = t.length) (h : s.turns start s.length = t.turns start t.length) : s = t := by
  let p := Index.residue start s.length
  have hp : p ≤ s.length := Index.residue_le start s.length
  have hp' : Index.residue start t.length = p := by rw [← hlength]
  have hturn : s.elements.drop p ++ s.elements.take p = t.elements.drop p ++ t.elements.take p := by
    calc
      s.elements.drop p ++ s.elements.take p = s.turns start s.length := by
        rw [← turns_residue, turns_whole hp]
      _ = t.turns start t.length := h
      _ = t.elements.drop p ++ t.elements.take p := by
        rw [← turns_residue, hp', turns_whole (by omega)]
  have hdrop : (s.elements.drop p).length = (t.elements.drop p).length := by
    rw [List.length_drop, List.length_drop]
    exact congrArg (fun n => n - p) hlength
  obtain ⟨htail, hhead⟩ := List.append_inj hturn hdrop
  have helements : s.elements = t.elements := by
    rw [← List.take_append_drop p s.elements, hhead, htail, List.take_append_drop]
  cases s
  cases t
  cases hmode
  cases helements
  rfl

section Slice
variable {s : Sequence α} {left right : Int}

theorem slice_of_length_eq_zero (h : s.length = 0) (left right : Int) :
    (s.slice left right : Outcome ε (Sequence α)) = .ok (ofList []) := by
  rw [slice, if_pos (isEmpty_iff_length_eq_zero.mpr h)]
  rfl

/-- A bounded slice is the range between the clamped bounds, and is always made. -/
theorem slice_bounded (hmode : s.mode = .bounded) (left right : Int) :
    (s.slice left right : Outcome ε (Sequence α)) = .ok (ofList
      ((s.elements.take (Index.clamp right s.length)).drop (Index.clamp left s.length))) := by
  unfold slice
  split
  · next hempty =>
    have hnil : s.elements = [] := List.isEmpty_iff.mp hempty
    rw [hnil, List.take_nil, List.drop_nil]
    rfl
  · simp only [hmode]
    split
    · next hle =>
      have hnothing : (s.elements.take (Index.clamp right s.length)).length ≤
          Index.clamp left s.length := by
        rw [List.length_take]
        omega
      rw [List.drop_eq_nil_of_le hnothing]
      rfl
    · have hrange : Index.clamp left s.length ≤ Index.clamp right s.length ∧
          Index.clamp right s.length ≤ s.length := ⟨by omega, Index.clamp_le right s.length⟩
      rw [copyRange, if_pos hrange]
      rfl

theorem slice_bounded_natCast (hmode : s.mode = .bounded) (hs : (s.length : Int) ≤ Index.greatest)
    {start stop : Nat} (hle : start ≤ stop) (hstop : stop ≤ s.length) :
    (s.slice start stop : Outcome ε (Sequence α)) =
      .ok (ofList ((s.elements.take stop).drop start)) := by
  rw [slice_bounded hmode, Index.clamp_natCast hstop hs, Index.clamp_natCast (by omega) hs]

theorem slice_cyclic_of_le (hmode : s.mode = .cyclic) (h : right ≤ left) :
    (s.slice left right : Outcome ε (Sequence α)) = .ok (ofList []) := by
  unfold slice
  simp only [hmode, h, ↓reduceIte, ite_self]
  rfl

/-- A cyclic slice is read over as many turns as it takes, up to the capacity. -/
theorem slice_cyclic_of_lt (hmode : s.mode = .cyclic) (hs : (s.length : Int) ≤ Index.greatest)
    (hne : s.length ≠ 0) (h : left < right) :
    (s.slice left right : Outcome ε (Sequence α)) =
      if Index.span left right ≤ Size.capacity then
        .ok (ofList (s.turns left (Index.span left right)))
      else .fault .capacity := by
  have hnonempty : ¬ s.isEmpty = true := fun hempty => hne (isEmpty_iff_length_eq_zero.mp hempty)
  have hlt : ¬ right ≤ left := by omega
  rw [slice, if_neg hnonempty]
  simp only [hmode, hlt, ↓reduceIte, Index.wrap_eq_residue left hne hs, Outcome.ok_bind]
  rfl

/-- A cyclic sequence is read from the left bound on, as many elements as there are positions between the
bounds. -/
theorem slice_cyclic (hmode : s.mode = .cyclic) (hs : (s.length : Int) ≤ Index.greatest)
    (hcount : (right - left).toNat ≤ Size.capacity) :
    (s.slice left right : Outcome ε (Sequence α)) =
      .ok (ofList (s.turns left (right - left).toNat)) := by
  by_cases hle : right ≤ left
  · have hzero : (right - left).toNat = 0 := by omega
    rw [slice_cyclic_of_le hmode hle, hzero, turns, takeTurns_zero]
  · by_cases hzero : s.length = 0
    · rw [slice_of_length_eq_zero hzero, turns_of_length_eq_zero s left hzero]
    · have hmax : Size.capacity ≤ Size.max := by decide
      have hspan : Index.span left right = (right - left).toNat :=
        Index.span_eq_toNat (by omega) (by omega)
      rw [slice_cyclic_of_lt hmode hs hzero (by omega), hspan, if_pos hcount]

end Slice

end Sequence

end SequenceMachine
