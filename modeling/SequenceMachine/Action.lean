import SequenceMachine.Outcome

/-!
Operations on a state. An `Action` takes a state to an outcome, the state it leaves and the events it
emitted on the way. The state and the events are kept whatever the outcome, so that what a failed
operation changed before it failed can be stated and proved. What an observer sees of an event is a
`Report`: a level, a name and named fields.
-/

namespace SequenceMachine

inductive Level where
  | trace
  | debug
  | warn
deriving DecidableEq

def Level.name : Level → String
  | .trace => "TRACE"
  | .debug => "DEBUG"
  | .warn => "WARN"

inductive Field where
  | number (value : Int)
  | text (value : String)
deriving DecidableEq

structure Report where
  level : Level
  name : String
  fields : List (String × Field)
deriving DecidableEq

structure Result (ε η σ α : Type) where
  outcome : Outcome ε α
  state : σ
  events : List η

def Result.after {ε η σ α : Type} (events : List η) (r : Result ε η σ α) : Result ε η σ α :=
  { r with events := events ++ r.events }

def Action (ε η σ α : Type) : Type := σ → Result ε η σ α

namespace Action

variable {ε ε' η η' σ τ α β γ : Type}

protected def pure (a : α) : Action ε η σ α := fun s => ⟨.ok a, s, []⟩

/-- Runs the second action on the state the first one left, after its events. An action that gives no
answer ends the sequence, with the state and the events it reached. -/
protected def bind (x : Action ε η σ α) (f : α → Action ε η σ β) : Action ε η σ β := fun s =>
  match x s with
  | ⟨.ok a, s', es⟩ => (f a s').after es
  | ⟨.error e, s', es⟩ => ⟨.error e, s', es⟩
  | ⟨.fault c, s', es⟩ => ⟨.fault c, s', es⟩

instance : Monad (Action ε η σ) where
  pure := Action.pure
  bind := Action.bind

def ofOutcome (x : Outcome ε α) : Action ε η σ α := fun s => ⟨x, s, []⟩

instance : MonadLift (Outcome ε) (Action ε η σ) where
  monadLift := ofOutcome

def state : Action ε η σ σ := fun s => ⟨.ok s, s, []⟩

def modify (f : σ → σ) : Action ε η σ Unit := fun s => ⟨.ok (), f s, []⟩

/-- Answers and changes the state as `f` says; where `f` gives no answer the state stays as it is. -/
def update (f : σ → Outcome ε (α × σ)) : Action ε η σ α := fun s =>
  match f s with
  | .ok (a, s') => ⟨.ok a, s', []⟩
  | .error e => ⟨.error e, s, []⟩
  | .fault c => ⟨.fault c, s, []⟩

def reject (e : ε) : Action ε η σ α := ofOutcome (.error e)

def emit (event : η) : Action ε η σ Unit := fun s => ⟨.ok (), s, [event]⟩

def logError (x : Action ε η σ α) (event : ε → η) : Action ε η σ α := fun s =>
  match x s with
  | ⟨.error e, s', es⟩ => ⟨.error e, s', es ++ [event e]⟩
  | r => r

/-- Runs an action on a part of the state. `put` stores the part that the action leaves, whatever its
outcome; its errors and events are restated in terms of the whole. -/
def focus (part : σ → τ) (put : τ → σ → σ) (onError : ε' → ε) (onEvent : η' → η)
    (x : Action ε' η' τ α) : Action ε η σ α := fun s =>
  let r := x (part s)
  ⟨r.outcome.mapError onError, put r.state s, r.events.map onEvent⟩

@[simp] theorem after_mk (events es : List η) (x : Outcome ε α) (s : σ) :
    Result.after events ⟨x, s, es⟩ = ⟨x, s, events ++ es⟩ := rfl

@[simp] theorem after_nil (r : Result ε η σ α) : r.after [] = r := rfl

/-- The events of earlier actions come first, in the order of the actions. -/
@[simp] theorem after_after (es es' : List η) (r : Result ε η σ α) :
    (r.after es').after es = r.after (es ++ es') := by
  simp [Result.after]

@[simp] theorem pure_apply (a : α) (s : σ) : (pure a : Action ε η σ α) s = ⟨.ok a, s, []⟩ := rfl

@[simp] theorem ofOutcome_apply (x : Outcome ε α) (s : σ) :
    (ofOutcome x : Action ε η σ α) s = ⟨x, s, []⟩ := rfl

@[simp] theorem liftM_eq_ofOutcome (x : Outcome ε α) : (liftM x : Action ε η σ α) = ofOutcome x := rfl

@[simp] theorem state_apply (s : σ) : (state : Action ε η σ σ) s = ⟨.ok s, s, []⟩ := rfl

@[simp] theorem modify_apply (f : σ → σ) (s : σ) :
    (modify f : Action ε η σ Unit) s = ⟨.ok (), f s, []⟩ := rfl

@[simp] theorem reject_apply (e : ε) (s : σ) : (reject e : Action ε η σ α) s = ⟨.error e, s, []⟩ := rfl

@[simp] theorem emit_apply (event : η) (s : σ) :
    (emit event : Action ε η σ Unit) s = ⟨.ok (), s, [event]⟩ := rfl

/-- A sequence goes on only with an answer; the events of its parts are told in their order. -/
theorem bind_apply (x : Action ε η σ α) (f : α → Action ε η σ β) (s : σ) :
    (x >>= f) s = match x s with
      | ⟨.ok a, s', es⟩ => (f a s').after es
      | ⟨.error e, s', es⟩ => ⟨.error e, s', es⟩
      | ⟨.fault c, s', es⟩ => ⟨.fault c, s', es⟩ := rfl

theorem bind_apply_of_ok {x : Action ε η σ α} {f : α → Action ε η σ β} {s s' : σ} {a : α} {es : List η}
    (h : x s = ⟨.ok a, s', es⟩) : (x >>= f) s = (f a s').after es := by
  rw [bind_apply, h]

/-- An error ends the sequence, with the state and the events of the action that reported it. -/
theorem bind_apply_of_error {x : Action ε η σ α} {f : α → Action ε η σ β} {s s' : σ} {e : ε}
    {es : List η} (h : x s = ⟨.error e, s', es⟩) : (x >>= f) s = ⟨.error e, s', es⟩ := by
  rw [bind_apply, h]

theorem bind_apply_of_fault {x : Action ε η σ α} {f : α → Action ε η σ β} {s s' : σ} {c : Fault}
    {es : List η} (h : x s = ⟨.fault c, s', es⟩) : (x >>= f) s = ⟨.fault c, s', es⟩ := by
  rw [bind_apply, h]

instance : LawfulMonad (Action ε η σ) := LawfulMonad.mk' _
  (fun x => funext fun s => by
    change (x >>= fun a => pure a) s = x s
    rw [bind_apply]
    rcases x s with ⟨_ | _ | _, s', es⟩ <;> simp)
  (fun a f => rfl)
  (fun x f g => funext fun s => by
    rw [bind_apply (x >>= f), bind_apply x f, bind_apply x]
    rcases x s with ⟨a | e | c, s', es⟩
    · dsimp only
      rw [bind_apply]
      rcases f a s' with ⟨_ | _ | _, s'', es'⟩ <;> simp
    · rfl
    · rfl)

end Action

end SequenceMachine
