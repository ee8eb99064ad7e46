import SequenceMachine.Size

/-!
Index arithmetic. An index is a signed 64-bit number; how it names a position depends on the mode of
the sequence. A bounded sequence adds its length once to a negative index, and what is still outside
is clamped (for a range) or refused (for an element). A cyclic sequence takes the index modulo its
length, rounding down, so that every index names a position of a non-empty sequence.
-/

namespace SequenceMachine

inductive Mode where
  | bounded
  | cyclic
deriving DecidableEq, Inhabited

namespace Index

variable {ε : Type}

def least : Int := -0x8000000000000000

def greatest : Int := 0x7fffffffffffffff

def Valid (index : Int) : Prop := least ≤ index ∧ index ≤ greatest

instance (index : Int) : Decidable (Valid index) := inferInstanceAs (Decidable (_ ∧ _))

/-- The length as an index; a length past the largest index counts as that index. -/
def ofLength (length : Nat) : Int := min length greatest

def fromStart (index : Int) (length : Nat) : Int :=
  if index < 0 then index + ofLength length else index

/-- The bound of a range that an index names in a bounded sequence: whatever lies outside after the
offset is moved to the nearer end. -/
def clamp (index : Int) (length : Nat) : Nat :=
  if fromStart index length ≤ 0 then 0
  else if ofLength length ≤ fromStart index length then length
  else (fromStart index length).toNat

def wrap (index : Int) (length : Nat) : Outcome ε Nat :=
  if length = 0 then .fault .remainderByZero else .ok (index % ofLength length).toNat

def element (index : Int) (length : Nat) : Mode → Outcome ε (Option Nat)
  | .cyclic => if length = 0 then pure none else some <$> wrap index length
  | .bounded =>
    if 0 ≤ fromStart index length ∧ fromStart index length < ofLength length then
      pure (some (fromStart index length).toNat)
    else pure none

/-- The position before which an insertion at an index takes place. A bounded sequence also accepts
the position after its last element. -/
def insertion (index : Int) (length : Nat) : Mode → Outcome ε (Option Nat)
  | .cyclic => if length = 0 then pure (some 0) else some <$> wrap index length
  | .bounded =>
    if 0 ≤ fromStart index length ∧ fromStart index length ≤ ofLength length then
      pure (some (fromStart index length).toNat)
    else pure none

/-- The number of positions from `left` up to `right`; a number that is no size counts as the largest
size. -/
def span (left right : Int) : Nat := (Size.ofInt? (right - left)).getD Size.max

theorem ofLength_eq_self {length : Nat} (h : (length : Int) ≤ greatest) : ofLength length = length := by
  unfold ofLength
  omega

theorem ofLength_nonneg (length : Nat) : 0 ≤ ofLength length := by
  unfold ofLength greatest
  omega

/-- Counted as an index, a length is never more than it is. -/
theorem ofLength_le (length : Nat) : ofLength length ≤ length := by
  unfold ofLength
  omega

/-- A clamped bound lies in the buffer or at its end. -/
theorem clamp_le (index : Int) (length : Nat) : clamp index length ≤ length := by
  have hle := ofLength_le length
  unfold clamp
  split
  · omega
  · split <;> omega

/-- In a non-empty sequence every index names a position. -/
theorem wrap_eq_ok (index : Int) {length : Nat} (h : length ≠ 0) :
    (wrap index length : Outcome ε Nat) = .ok (index % ofLength length).toNat := by
  simp [wrap, h]

end Index

end SequenceMachine
