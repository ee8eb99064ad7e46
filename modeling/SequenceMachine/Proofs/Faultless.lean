import SequenceMachine.Proofs.Ending

namespace SequenceMachine.Outcome

variable {ε ε' σ α β : Type}

def Faultless (x : Outcome ε α) : Prop := ∀ c, x ≠ .fault c

theorem faultless_ok (a : α) : (ok a : Outcome ε α).Faultless := by
  intro c h
  cases h

theorem faultless_error (e : ε) : (error e : Outcome ε α).Faultless := by
  intro c h
  cases h

theorem faultless_of_eq_ok {x : Outcome ε α} {a : α} (h : x = .ok a) : x.Faultless :=
  h ▸ faultless_ok a

theorem faultless_ofOption (e : ε) (x : Option α) : (ofOption e x).Faultless := by
  cases x with
  | none => exact faultless_error e
  | some a => exact faultless_ok a

namespace Faultless

variable {x : Outcome ε α}

/-- What has no fault has an answer or an error. -/
theorem answers_or_fails (hx : x.Faultless) : (∃ a, x = .ok a) ∨ ∃ e, x = .error e := by
  cases x with
  | ok a => exact .inl ⟨a, rfl⟩
  | error e => exact .inr ⟨e, rfl⟩
  | fault c => exact absurd rfl (hx c)

/-- Each step has to be without a fault only after the answers of the steps before it. -/
theorem bind {f : α → Outcome ε β} (hx : x.Faultless) (hf : ∀ a, x = .ok a → (f a).Faultless) :
    (x >>= f).Faultless := by
  cases x with
  | ok a => exact hf a rfl
  | error e => exact faultless_error e
  | fault c => exact absurd rfl (hx c)

theorem map (hx : x.Faultless) (f : α → β) : (f <$> x).Faultless := by
  rw [← bind_pure_comp]
  exact hx.bind fun a _ => faultless_ok (f a)

theorem mapError (hx : x.Faultless) (f : ε → ε') : (x.mapError f).Faultless := by
  cases x with
  | ok a => exact faultless_ok a
  | error e => exact faultless_error (f e)
  | fault c => exact absurd rfl (hx c)

theorem andThen {s : σ} {f : α → Outcome ε β × σ} (hx : x.Faultless)
    (hf : ∀ a, x = .ok a → (f a).1.Faultless) : (x.andThen s f).1.Faultless := by
  cases x with
  | ok a => exact hf a rfl
  | error e => exact faultless_error e
  | fault c => exact absurd rfl (hx c)

end Faultless

/-- Steps that are faultless one by one are faultless one after the other. -/
theorem faultless_mapM {f : α → Outcome ε β} (hf : ∀ a, (f a).Faultless) (as : List α) :
    (as.mapM f).Faultless := by
  induction as with
  | nil => exact faultless_ok []
  | cons a as ih =>
    rw [List.mapM_cons]
    exact (hf a).bind fun _ _ => ih.bind fun _ _ => faultless_ok _

end SequenceMachine.Outcome
