import SequenceMachine.Proofs.Ending

namespace SequenceMachine.Action

variable {ε ε' η η' σ τ α β : Type} {P : η → Prop} {s : σ}

def EmitsOnly (P : η → Prop) (x : Action ε η σ α) (s : σ) : Prop := ∀ event ∈ (x s).events, P event

theorem emitsOnly_of_silent {x : Action ε η σ α} (h : (x s).events = []) : EmitsOnly P x s := by
  intro event hevent
  rw [h] at hevent
  cases hevent

theorem emitsOnly_pure (a : α) : EmitsOnly P (pure a : Action ε η σ α) s := emitsOnly_of_silent rfl

theorem emitsOnly_state : EmitsOnly P (state : Action ε η σ σ) s := emitsOnly_of_silent rfl

theorem emitsOnly_ofOutcome (x : Outcome ε α) : EmitsOnly P (ofOutcome x : Action ε η σ α) s :=
  emitsOnly_of_silent rfl

theorem emitsOnly_modify (f : σ → σ) : EmitsOnly P (modify f : Action ε η σ Unit) s :=
  emitsOnly_of_silent rfl

theorem emitsOnly_update (f : σ → Outcome ε (α × σ)) : EmitsOnly P (update f : Action ε η σ α) s := by
  apply emitsOnly_of_silent
  unfold update
  rcases f s with ⟨a, s'⟩ | e | c <;> rfl

theorem emitsOnly_emit {event : η} (h : P event) : EmitsOnly P (emit event : Action ε η σ Unit) s := by
  intro event' hevent
  rw [emit_apply, List.mem_singleton] at hevent
  rwa [hevent]

/-- A sequence emits only what its parts emit. The second part counts in the states in which the first one
answers. -/
theorem EmitsOnly.bind {x : Action ε η σ α} {f : α → Action ε η σ β} (hx : EmitsOnly P x s)
    (hf : ∀ a s', (x s).ending = (.ok a, s') → EmitsOnly P (f a) s') : EmitsOnly P (x >>= f) s := by
  intro event hevent
  unfold EmitsOnly at hx
  rw [bind_apply] at hevent
  generalize x s = r at hx hf hevent
  obtain ⟨a | e | c, s', es⟩ := r
  · rcases List.mem_append.mp hevent with hbefore | hafter
    · exact hx event hbefore
    · exact hf a s' rfl event hafter
  · exact hx event hevent
  · exact hx event hevent

/-- An event that is added on an error has to have the property too. -/
theorem EmitsOnly.logError {x : Action ε η σ α} {report : ε → η} (hx : EmitsOnly P x s)
    (hreport : ∀ e, P (report e)) : EmitsOnly P (logError x report) s := by
  intro event hevent
  unfold EmitsOnly at hx
  unfold Action.logError at hevent
  generalize x s = r at hx hevent
  obtain ⟨a | e | c, s', es⟩ := r
  · exact hx event hevent
  · rcases List.mem_append.mp hevent with hbefore | hlast
    · exact hx event hbefore
    · rw [List.mem_singleton.mp hlast]
      exact hreport e
  · exact hx event hevent

/-- An action on a part of the state emits its events in the words of the whole. -/
theorem EmitsOnly.focus {part : σ → τ} {put : τ → σ → σ} {onError : ε' → ε} {onEvent : η' → η}
    {x : Action ε' η' τ α} (hx : EmitsOnly (fun event => P (onEvent event)) x (part s)) :
    EmitsOnly P (focus part put onError onEvent x) s := by
  intro event hevent
  obtain ⟨inner, hinner, rfl⟩ := List.mem_map.mp hevent
  exact hx inner hinner

/-- An action that emits only events of which there are none is silent. -/
theorem EmitsOnly.silent {x : Action ε η σ α} (hx : EmitsOnly (fun _ => False) x s) : (x s).events = [] :=
  List.eq_nil_iff_forall_not_mem.mpr hx

section TellsErrors
variable {report : ε → List η}

def reported (report : ε → List η) : Outcome ε α → List η
  | .error e => report e
  | _ => []

@[simp] theorem reported_ok (a : α) : reported report (.ok a) = [] := rfl

@[simp] theorem reported_error (e : ε) : reported report (.error e : Outcome ε α) = report e := rfl

@[simp] theorem reported_fault (c : Fault) : reported report (.fault c : Outcome ε α) = [] := rfl

/-- Carried out in the state `s`, the action emits what goes with the error it reports, if it reports
one, and nothing else. -/
def TellsErrors (report : ε → List η) (x : Action ε η σ α) (s : σ) : Prop :=
  (x s).events = reported report (x s).outcome

/-- A silent action may only report errors that nothing goes with. -/
theorem tellsErrors_of_silent {x : Action ε η σ α} (hsilent : (x s).events = [])
    (hreport : ∀ e, (x s).outcome = .error e → report e = []) : TellsErrors report x s := by
  unfold TellsErrors
  rw [hsilent]
  cases hout : (x s).outcome with
  | ok a => rfl
  | error e => exact (hreport e hout).symm
  | fault c => rfl

theorem tellsErrors_pure (a : α) : TellsErrors report (pure a : Action ε η σ α) s := rfl

/-- The error of a sequence is told once, by the part that reports it. -/
theorem TellsErrors.bind {x : Action ε η σ α} {f : α → Action ε η σ β} (hx : TellsErrors report x s)
    (hf : ∀ a s', (x s).ending = (.ok a, s') → TellsErrors report (f a) s') :
    TellsErrors report (x >>= f) s := by
  unfold TellsErrors at hx ⊢
  rw [bind_apply]
  generalize x s = r at hx hf ⊢
  obtain ⟨a | e | c, s', es⟩ := r
  · -- The first action has answered, so it was silent.
    obtain rfl : es = [] := hx
    exact hf a s' rfl
  · exact hx
  · exact hx

end TellsErrors

end SequenceMachine.Action
