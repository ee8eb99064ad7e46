import SequenceMachine.Outcome

namespace SequenceMachine.Size

variable {ε : Type}

def max : Nat := 0xffffffffffffffff

/-- The most elements a sequence can hold: the bytes an allocation may have, 2^63 - 1, over the 24
bytes of a value. -/
def capacity : Nat := 0x7fffffffffffffff / 24

def add (a b : Nat) : Outcome ε Nat :=
  if a + b ≤ max then .ok (a + b) else .fault .sizeAddition

def sub (a b : Nat) : Outcome ε Nat :=
  if b ≤ a then .ok (a - b) else .fault .sizeSubtraction

def ofInt? (n : Int) : Option Nat :=
  if 0 ≤ n ∧ n ≤ max then some n.toNat else none

theorem ofInt?_eq_some {n : Int} (h₀ : 0 ≤ n) (h₁ : n ≤ max) : ofInt? n = some n.toNat := by
  simp [ofInt?, h₀, h₁]

theorem add_eq_ok {a b : Nat} (h : a + b ≤ max) : (add a b : Outcome ε Nat) = .ok (a + b) := by
  simp [add, h]

theorem sub_eq_ok {a b : Nat} (h : b ≤ a) : (sub a b : Outcome ε Nat) = .ok (a - b) := by
  simp [sub, h]

/-- A sum that is a size is exact. -/
theorem eq_of_add_eq_ok {a b n : Nat} (h : (add a b : Outcome ε Nat) = .ok n) : n = a + b := by
  unfold add at h
  split at h
  · exact (Outcome.ok.inj h).symm
  · cases h

/-- A difference that is a size is exact, so the subtrahend was not the greater one. -/
theorem le_and_eq_of_sub_eq_ok {a b n : Nat} (h : (sub a b : Outcome ε Nat) = .ok n) :
    b ≤ a ∧ n = a - b := by
  unfold sub at h
  split at h
  · exact ⟨by assumption, (Outcome.ok.inj h).symm⟩
  · cases h

end SequenceMachine.Size
