/-!
How an operation ends. An `Outcome` is an answer, an error that the operation reports to its caller,
or a fault: a primitive was used outside the condition it needs. Errors are part of each operation's
contract, faults are not, so a program built from faulting primitives owes a proof that none arises.
-/

namespace SequenceMachine

/-- The condition that a primitive's caller broke. -/
inductive Fault where
  | remainderByZero
  | sizeAddition
  | sizeSubtraction
  | capacity
  | position (position length : Nat)
  | range (start stop length : Nat)
  | unevenCopy (expected actual : Nat)
  | sharedSlot (slot : Nat)
  | slotBeyondEnd (slot count : Nat)
deriving DecidableEq

def Fault.message : Fault → String
  | .remainderByZero => "attempt to calculate the remainder with a divisor of zero"
  | .sizeAddition => "attempt to add with overflow"
  | .sizeSubtraction => "attempt to subtract with overflow"
  | .capacity => "capacity overflow"
  | .position place length => s!"position {place} is out of range for length {length}"
  | .range start stop length => s!"range {start}..{stop} is out of range for length {length}"
  | .unevenCopy expected actual => s!"cannot copy {actual} elements over {expected}"
  | .sharedSlot slot => s!"slot {slot} cannot be borrowed twice"
  | .slotBeyondEnd slot count => s!"slot {slot} is beyond the {count} slots issued"

inductive Outcome (ε α : Type) where
  | ok (answer : α)
  | error (cause : ε)
  | fault (cause : Fault)
deriving DecidableEq

namespace Outcome

variable {ε ε' α β : Type}

protected def bind (x : Outcome ε α) (f : α → Outcome ε β) : Outcome ε β :=
  match x with
  | .ok a => f a
  | .error e => .error e
  | .fault c => .fault c

instance : Monad (Outcome ε) where
  pure := .ok
  bind := Outcome.bind

@[simp] theorem pure_eq_ok (a : α) : (pure a : Outcome ε α) = .ok a := rfl

@[simp] theorem ok_bind (a : α) (f : α → Outcome ε β) : (ok a >>= f) = f a := rfl

@[simp] theorem error_bind (e : ε) (f : α → Outcome ε β) : (error e >>= f) = .error e := rfl

@[simp] theorem fault_bind (c : Fault) (f : α → Outcome ε β) : (fault c >>= f) = .fault c := rfl

@[simp] theorem map_ok (f : α → β) (a : α) : f <$> (ok a : Outcome ε α) = .ok (f a) := rfl

instance : LawfulMonad (Outcome ε) := LawfulMonad.mk' _
  (fun x => by cases x <;> rfl)
  (fun _ _ => rfl)
  (fun x _ _ => by cases x <;> rfl)

/-- An answer of a sequence of two steps is one of the second after one of the first. -/
theorem bind_eq_ok_iff {x : Outcome ε α} {f : α → Outcome ε β} {b : β} :
    (x >>= f) = .ok b ↔ ∃ a, x = .ok a ∧ f a = .ok b := by
  cases x <;> simp

theorem map_eq_ok_iff {x : Outcome ε α} {f : α → β} {b : β} :
    f <$> x = .ok b ↔ ∃ a, x = .ok a ∧ f a = b := by
  rw [← bind_pure_comp, bind_eq_ok_iff]
  simp

/-- What is done with an answer neither adds an error nor takes one away. -/
theorem map_eq_error_iff {x : Outcome ε α} {f : α → β} {e : ε} :
    f <$> x = .error e ↔ x = .error e := by
  cases x <;> simp [Functor.map, Outcome.bind]

def ofOption (e : ε) : Option α → Outcome ε α
  | some a => .ok a
  | none => .error e

@[simp] theorem ofOption_some (e : ε) (a : α) : ofOption e (some a) = .ok a := rfl

@[simp] theorem ofOption_none (e : ε) : ofOption e (none : Option α) = .error e := rfl

theorem ofOption_eq_ok_iff {e : ε} {x : Option α} {a : α} : ofOption e x = .ok a ↔ x = some a := by
  cases x <;> simp

def mapError (f : ε → ε') : Outcome ε α → Outcome ε' α
  | .ok a => .ok a
  | .error e => .error (f e)
  | .fault c => .fault c

@[simp] theorem mapError_ok (f : ε → ε') (a : α) : (ok a : Outcome ε α).mapError f = .ok a := rfl

@[simp] theorem mapError_error (f : ε → ε') (e : ε) :
    (error e : Outcome ε α).mapError f = .error (f e) := rfl

@[simp] theorem mapError_fault (f : ε → ε') (c : Fault) :
    (fault c : Outcome ε α).mapError f = .fault c := rfl

/-- Restating errors neither adds an answer nor takes one away. -/
theorem mapError_eq_ok_iff {f : ε → ε'} {x : Outcome ε α} {a : α} :
    x.mapError f = .ok a ↔ x = .ok a := by
  cases x <;> simp

end Outcome

end SequenceMachine
