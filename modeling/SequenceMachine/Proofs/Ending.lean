import SequenceMachine.Action

/-!
How actions end, apart from the events they emit. An ending is an outcome with the state that was left.
The laws below take the ending of a sequence of actions apart, down to a chain of outcomes that were
found without changing the state (`Outcome.andThen`). Two outcomes correspond if one is the other with
its error and its answer restated (`Outcome.bimap`). An action keeps a property if it takes no state
that has it to one that has not, reads if it keeps the state altogether, and is atomic if it keeps the
state where it gives no answer.
-/

namespace SequenceMachine

variable {ε ε' η η' σ τ α β γ : Type}

def Result.ending (r : Result ε η σ α) : Outcome ε α × σ := (r.outcome, r.state)

theorem Result.eq_of_ending {r : Result ε η σ α} {x : Outcome ε α} {s : σ} (h : r.ending = (x, s)) :
    r = ⟨x, s, r.events⟩ := by
  cases h
  rfl

namespace Outcome

def andThen (x : Outcome ε α) (s : σ) (f : α → Outcome ε β × σ) : Outcome ε β × σ :=
  match x with
  | .ok a => f a
  | .error e => (.error e, s)
  | .fault c => (.fault c, s)

@[simp] theorem andThen_ok (a : α) (s : σ) (f : α → Outcome ε β × σ) :
    (ok a : Outcome ε α).andThen s f = f a := rfl

@[simp] theorem andThen_error (e : ε) (s : σ) (f : α → Outcome ε β × σ) :
    (error e : Outcome ε α).andThen s f = (.error e, s) := rfl

@[simp] theorem andThen_fault (c : Fault) (s : σ) (f : α → Outcome ε β × σ) :
    (fault c : Outcome ε α).andThen s f = (.fault c, s) := rfl

/-- Outcomes found one after the other in one state are found as one. -/
theorem andThen_bind (x : Outcome ε α) (k : α → Outcome ε β) (s : σ) (f : β → Outcome ε γ × σ) :
    (x >>= k).andThen s f = x.andThen s fun a => (k a).andThen s f := by
  cases x <;> rfl

def bimap (f : ε → ε') (g : α → β) : Outcome ε α → Outcome ε' β
  | .ok a => .ok (g a)
  | .error e => .error (f e)
  | .fault c => .fault c

@[simp] theorem bimap_ok (f : ε → ε') (g : α → β) (a : α) :
    (ok a : Outcome ε α).bimap f g = .ok (g a) := rfl

@[simp] theorem bimap_error (f : ε → ε') (g : α → β) (e : ε) :
    (error e : Outcome ε α).bimap f g = .error (f e) := rfl

@[simp] theorem bimap_fault (f : ε → ε') (g : α → β) (c : Fault) :
    (fault c : Outcome ε α).bimap f g = .fault c := rfl

/-- Two sequences of two steps correspond if the first steps do, and the second ones do after each
answer of the first. -/
theorem bind_eq_bimap {α' β' : Type} {f : ε → ε'} {g : α → α'} {g' : β → β'} {x : Outcome ε α}
    {x' : Outcome ε' α'} {k : α → Outcome ε β} {k' : α' → Outcome ε' β'} (hx : x' = x.bimap f g)
    (hk : ∀ a, x = .ok a → k' (g a) = (k a).bimap f g') : (x' >>= k') = (x >>= k).bimap f g' := by
  subst hx
  cases x with
  | ok a => exact hk a rfl
  | error e => rfl
  | fault c => rfl

end Outcome

namespace Action

@[simp] theorem ending_mk (x : Outcome ε α) (s : σ) (es : List η) :
    (⟨x, s, es⟩ : Result ε η σ α).ending = (x, s) := rfl

@[simp] theorem ending_after (es : List η) (r : Result ε η σ α) : (r.after es).ending = r.ending := rfl

/-- The ending of a sequence follows from the endings of its parts, whatever they emit. -/
theorem ending_bind (x : Action ε η σ α) (f : α → Action ε η σ β) (s : σ) :
    ((x >>= f) s).ending =
      (x s).outcome.andThen (x s).state fun a => (f a (x s).state).ending := by
  rw [bind_apply]
  rcases x s with ⟨_ | _ | _, s', es⟩ <;> rfl

theorem ending_bind_of_ending {x : Action ε η σ α} {f : α → Action ε η σ β} {s s' : σ}
    {y : Outcome ε α} (h : (x s).ending = (y, s')) :
    ((x >>= f) s).ending = y.andThen s' fun a => (f a s').ending := by
  have houtcome : (x s).outcome = y := congrArg Prod.fst h
  have hstate : (x s).state = s' := congrArg Prod.snd h
  rw [ending_bind, houtcome, hstate]

/-- A sequence of two actions answers only if the first one does, from the state it leaves. -/
theorem exists_of_ending_bind {x : Action ε η σ α} {f : α → Action ε η σ β} {s s' t : σ}
    {y : Outcome ε α} {b : β} (hx : (x s).ending = (y, s'))
    (h : ((x >>= f) s).ending = (.ok b, t)) : ∃ a, y = .ok a ∧ (f a s').ending = (.ok b, t) := by
  rw [ending_bind_of_ending hx] at h
  cases y with
  | ok a => exact ⟨a, rfl, h⟩
  | error e => cases h
  | fault c => cases h

theorem ending_bind_pure (x : Action ε η σ α) (g : α → β) (s : σ) :
    ((x >>= fun a => pure (g a)) s).ending = (g <$> (x s).outcome, (x s).state) := by
  rw [ending_bind]
  cases (x s).outcome <;> rfl

theorem outcome_bind_pure (x : Action ε η σ α) (g : α → β) (s : σ) :
    ((x >>= fun a => pure (g a)) s).outcome = g <$> (x s).outcome :=
  congrArg Prod.fst (ending_bind_pure x g s)

theorem state_bind_pure (x : Action ε η σ α) (g : α → β) (s : σ) :
    ((x >>= fun a => pure (g a)) s).state = (x s).state :=
  congrArg Prod.snd (ending_bind_pure x g s)

theorem outcome_update (f : σ → Outcome ε (α × σ)) (s : σ) :
    (update f s : Result ε η σ α).outcome = Prod.fst <$> f s := by
  unfold update
  rcases f s with _ | _ | _ <;> rfl

/-- To log an error changes neither the outcome nor the state. -/
theorem ending_logError (x : Action ε η σ α) (event : ε → η) (s : σ) :
    (logError x event s).ending = (x s).ending := by
  unfold logError
  rcases x s with ⟨_ | _ | _, s', es⟩ <;> rfl

section Keeps
variable {I : σ → Prop}

def Keeps (I : σ → Prop) (x : Action ε η σ α) : Prop := ∀ s, I s → I (x s).state

theorem Keeps.bind {x : Action ε η σ α} {f : α → Action ε η σ β} (hx : Keeps I x)
    (hf : ∀ a, Keeps I (f a)) : Keeps I (x >>= f) := by
  intro s hs
  have hmid := hx s hs
  rw [bind_apply]
  generalize x s = r at hmid ⊢
  rcases r with ⟨a | _ | _, s', es⟩
  · exact hf a s' hmid
  · exact hmid
  · exact hmid

theorem keeps_pure (a : α) : Keeps I (pure a : Action ε η σ α) := fun _ hs => hs

theorem keeps_state : Keeps I (state : Action ε η σ σ) := fun _ hs => hs

theorem keeps_ofOutcome (x : Outcome ε α) : Keeps I (ofOutcome x : Action ε η σ α) := fun _ hs => hs

end Keeps

section Atomic

def Atomic (x : Action ε η σ α) : Prop := ∀ s, (∀ a, (x s).outcome ≠ .ok a) → (x s).state = s

def Reads (x : Action ε η σ α) : Prop := ∀ s, Keeps (· = s) x

theorem Reads.atomic {x : Action ε η σ α} (hx : Reads x) : Atomic x := fun s _ => hx s s rfl

theorem reads_state : Reads (state : Action ε η σ σ) := fun _ => keeps_state

theorem reads_ofOutcome (x : Outcome ε α) : Reads (ofOutcome x : Action ε η σ α) :=
  fun _ => keeps_ofOutcome x

theorem Reads.bind {x : Action ε η σ α} {f : α → Action ε η σ β} (hx : Reads x)
    (hf : ∀ a, Reads (f a)) : Reads (x >>= f) := fun s => (hx s).bind fun a => hf a s

/-- What is read before an atomic action can give no answer without harm. -/
theorem Reads.bind_atomic {x : Action ε η σ α} {f : α → Action ε η σ β} (hx : Reads x)
    (hf : ∀ a, Atomic (f a)) : Atomic (x >>= f) := by
  intro s hfail
  have hkeep : (x s).state = s := hx s s rfl
  rw [bind_apply] at hfail ⊢
  generalize x s = r at hkeep hfail ⊢
  rcases r with ⟨a | _ | _, s', es⟩
  · obtain rfl : s' = s := hkeep
    exact hf a s' hfail
  · exact hkeep
  · exact hkeep

/-- An answer can be restated after an atomic action. -/
theorem Atomic.bind_pure {x : Action ε η σ α} (hx : Atomic x) (g : α → β) :
    Atomic (x >>= fun a => pure (g a)) := by
  intro s hfail
  rw [outcome_bind_pure] at hfail
  rw [state_bind_pure]
  apply hx
  intro a ha
  exact hfail (g a) (by rw [ha, Outcome.map_ok])

theorem atomic_modify (f : σ → σ) : Atomic (modify f : Action ε η σ Unit) :=
  fun _ hfail => absurd rfl (hfail ())

/-- An update is atomic by its definition: without an answer there is no new state. -/
theorem atomic_update (f : σ → Outcome ε (α × σ)) : Atomic (update f : Action ε η σ α) := by
  intro s hfail
  unfold update at hfail ⊢
  generalize f s = found at hfail ⊢
  rcases found with ⟨a, s'⟩ | e | c
  · exact absurd rfl (hfail a)
  · rfl
  · rfl

end Atomic

def stateAfter (x : Action ε η σ α) (s : σ) : Outcome ε σ := (fun _ => (x s).state) <$> (x s).outcome

theorem stateAfter_eq_ok_of_ending {x : Action ε η σ α} {s s' : σ} {a : α}
    (h : (x s).ending = (.ok a, s')) : stateAfter x s = .ok s' := by
  have houtcome : (x s).outcome = .ok a := congrArg Prod.fst h
  have hstate : (x s).state = s' := congrArg Prod.snd h
  rw [stateAfter, houtcome, hstate]
  rfl

end Action

end SequenceMachine
