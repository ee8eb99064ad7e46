import SequenceMachine.Index

namespace SequenceMachine.Index

variable {ε : Type}

def residue (index : Int) (length : Nat) : Nat :=
  if length = 0 then 0 else (index % length).toNat

@[simp] theorem residue_zero_right (index : Int) : residue index 0 = 0 := rfl

theorem natCast_residue (index : Int) {length : Nat} (h : length ≠ 0) :
    (residue index length : Int) = index % length := by
  have hpos : 0 ≤ index % (length : Int) := Int.emod_nonneg _ (by omega)
  rw [residue, if_neg h, Int.toNat_of_nonneg hpos]

/-- In a sequence with elements a residue is a position. -/
theorem residue_lt (index : Int) {length : Nat} (h : length ≠ 0) : residue index length < length := by
  have hlt : index % (length : Int) < length := Int.emod_lt_of_pos _ (by omega)
  have hcast := natCast_residue index h
  omega

theorem residue_le (index : Int) (length : Nat) : residue index length ≤ length := by
  by_cases h : length = 0
  · simp [h]
  · exact Nat.le_of_lt (residue_lt index h)

/-- Going on by `steps` goes around the buffer. -/
theorem residue_add (index : Int) (steps : Nat) {length : Nat} (h : length ≠ 0) :
    residue (index + steps) length = (residue index length + steps) % length := by
  apply Int.ofNat.inj
  rw [Int.ofNat_eq_natCast, Int.ofNat_eq_natCast, natCast_residue _ h, Int.natCast_emod,
    Int.natCast_add, natCast_residue _ h, Int.emod_add_emod]

/-- Steps that stay in the buffer are added to the position. -/
theorem residue_add_inside {index : Int} {steps length : Nat}
    (h : residue index length + steps < length) :
    residue (index + steps) length = residue index length + steps := by
  rw [residue_add index steps (by omega), Nat.mod_eq_of_lt h]

/-- Steps to the end of the buffer lead to its beginning. -/
theorem residue_add_atEnd {index : Int} {steps length : Nat}
    (h : residue index length + steps = length) : residue (index + steps) length = 0 := by
  by_cases hl : length = 0
  · simp [hl]
  · rw [residue_add index steps hl, h, Nat.mod_self]

/-- Steps past the end go on from the beginning of the buffer. -/
theorem residue_add_across {index : Int} {steps length : Nat} (hs : steps ≤ length)
    (h : length < residue index length + steps) :
    residue (index + steps) length = residue index length + steps - length := by
  have hl : length ≠ 0 := by
    intro hl
    rw [hl, residue_zero_right] at h
    omega
  have hlt := residue_lt index hl
  have hrest : residue index length + steps - length < length := by omega
  rw [residue_add index steps hl, Nat.mod_eq_sub_mod (Nat.le_of_lt h), Nat.mod_eq_of_lt hrest]

theorem residue_natCast {position length : Nat} (h : position < length) :
    residue position length = position := by
  have hl : length ≠ 0 := by omega
  have hcast := natCast_residue (position : Int) hl
  rw [← Int.natCast_emod, Nat.mod_eq_of_lt h] at hcast
  exact Int.ofNat.inj hcast

/-- Going on from the position of an index leads where going on from the index does. -/
theorem residue_residue_add (index steps : Int) (length : Nat) :
    residue (residue index length + steps) length = residue (index + steps) length := by
  by_cases hl : length = 0
  · simp [hl]
  · apply Int.ofNat.inj
    rw [Int.ofNat_eq_natCast, Int.ofNat_eq_natCast, natCast_residue _ hl, natCast_residue _ hl,
      natCast_residue _ hl, Int.emod_add_emod]

/-- The number of steps that lead from an index to a position: as many as the position lies ahead, or what
is left of a turn if it lies behind. -/
theorem emod_natCast_sub (index : Int) {x length : Nat} (hx : x < length) :
    ((x : Int) - index) % length =
      if residue index length ≤ x then (x : Int) - residue index length
      else x + length - residue index length := by
  have hne : length ≠ 0 := by omega
  have hlt := residue_lt index hne
  have hsteps : ((x : Int) - index) % length = ((x : Int) - residue index length) % length := by
    rw [natCast_residue index hne, Int.sub_emod_emod]
  rw [hsteps]
  split
  · exact Int.emod_eq_of_lt (by omega) (by omega)
  · have hturn : (x : Int) - residue index length + length = x + length - residue index length := by
      omega
    rw [← Int.add_emod_right, hturn]
    exact Int.emod_eq_of_lt (by omega) (by omega)

/-- A length that can be held is an index. -/
theorem le_greatest_of_le_capacity {length : Nat} (h : length ≤ Size.capacity) :
    (length : Int) ≤ greatest := by
  have hcapacity : (Size.capacity : Int) ≤ greatest := by decide
  omega

/-- Up to the largest index the position of a cyclic index is its remainder. -/
theorem wrap_eq_residue (index : Int) {length : Nat} (h : length ≠ 0) (hl : (length : Int) ≤ greatest) :
    (wrap index length : Outcome ε Nat) = .ok (residue index length) := by
  rw [wrap_eq_ok index h, ofLength_eq_self hl, residue, if_neg h]

/-- The position of a cyclic index lies in the buffer, whatever its length. -/
theorem lt_of_wrap_eq_ok {index : Int} {length p : Nat}
    (h : (wrap index length : Outcome ε Nat) = .ok p) : p < length := by
  by_cases hl : length = 0
  · simp [wrap, hl] at h
  · -- The remainder is taken by the length as an index, which is at most the length.
    rw [wrap_eq_ok index hl] at h
    have hp : (index % ofLength length).toNat = p := Outcome.ok.inj h
    have hpos : 0 < ofLength length := by
      unfold ofLength greatest
      omega
    have hlt := Int.emod_lt_of_pos index hpos
    have hle := ofLength_le length
    omega

end SequenceMachine.Index
