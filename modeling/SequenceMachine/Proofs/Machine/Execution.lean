import SequenceMachine.Proofs.Machine.Rule

namespace SequenceMachine.Machine

variable {m m' : Machine} {i : Instruction} {e : Effect}

theorem outcome_evaluate (i : Instruction) (m : Machine) : (evaluate i m).outcome = (m.step i).1 :=
  congrArg Prod.fst (ending_evaluate i m)

theorem state_evaluate (i : Instruction) (m : Machine) : (evaluate i m).state = (m.step i).2 :=
  congrArg Prod.snd (ending_evaluate i m)

theorem step_of_plan (h : m.plan i = .ok e) : m.step i = m.commit e := by
  rw [step, h, Outcome.andThen_ok]

def Effect.heapAfter (h : Heap) : Effect → Heap
  | .none => h
  | .load _ _ => h
  | .store _ s => h.add s
  | .replace id s => h.replace id s
  | .release id => h.remove id

theorem put_of_lt {r : Register} (h : r.number < m.registers.length) (v : Value) :
    m.put r v = (.ok (), { m with registers := m.registers.set r.number v }) := if_pos h

/-- To write a register that does not exist changes nothing. -/
theorem put_of_le {r : Register} (h : m.registers.length ≤ r.number) (v : Value) :
    m.put r v = (.error (.noRegister r), m) := if_neg (Nat.not_lt.mpr h)

theorem heap_put (m : Machine) (r : Register) (v : Value) : (m.put r v).2.heap = m.heap := by
  unfold put
  split <;> rfl

theorem config_put (m : Machine) (r : Register) (v : Value) : (m.put r v).2.config = m.config := by
  unfold put
  split <;> rfl

theorem length_registers_put (m : Machine) (r : Register) (v : Value) :
    (m.put r v).2.registers.length = m.registers.length := by
  unfold put
  split
  · exact List.length_set
  · rfl

/-- The heap after an effect is the same whether or not its register exists. -/
theorem heap_commit (m : Machine) (e : Effect) : (m.commit e).2.heap = e.heapAfter m.heap := by
  cases e with
  | load dst v => exact heap_put m dst v
  | store dst s => exact heap_put _ dst _
  | _ => rfl

theorem config_commit (m : Machine) (e : Effect) : (m.commit e).2.config = m.config := by
  cases e with
  | load dst v => exact config_put m dst v
  | store dst s => exact config_put _ dst _
  | _ => rfl

theorem length_registers_commit (m : Machine) (e : Effect) :
    (m.commit e).2.registers.length = m.registers.length := by
  cases e with
  | load dst v => exact length_registers_put m dst v
  | store dst s => exact length_registers_put _ dst _
  | _ => rfl

/-- An instruction keeps the state, or commits the effect of its rule. -/
theorem step_cases (m : Machine) (i : Instruction) :
    (m.step i).2 = m ∨ ∃ e, Plans m i e ∧ m.step i = m.commit e := by
  unfold step
  cases hplan : m.plan i with
  | ok e => exact .inr ⟨e, plans_of_plan_eq_ok hplan, rfl⟩
  | error cause => exact .inl rfl
  | fault cause => exact .inl rfl

/-- An instruction that succeeds was planned, and its effect was committed. -/
theorem exists_plan_of_step_ok (h : (m.step i).1 = .ok ()) :
    ∃ e, m.plan i = .ok e ∧ (m.commit e).1 = .ok () := by
  cases hplan : m.plan i with
  | ok e =>
    rw [step_of_plan hplan] at h
    exact ⟨e, rfl, h⟩
  | error cause =>
    rw [step, hplan] at h
    cases h
  | fault cause =>
    rw [step, hplan] at h
    cases h

/-- No instruction changes the settings. -/
theorem config_step (m : Machine) (i : Instruction) : (m.step i).2.config = m.config := by
  rcases step_cases m i with hkeep | ⟨e, _, hstep⟩
  · rw [hkeep]
  · rw [hstep, config_commit]

/-- No instruction adds a register or takes one away. -/
theorem length_registers_step (m : Machine) (i : Instruction) :
    (m.step i).2.registers.length = m.registers.length := by
  rcases step_cases m i with hkeep | ⟨e, _, hstep⟩
  · rw [hkeep]
  · rw [hstep, length_registers_commit]

section Run
variable (length pc : Nat) (rest : Program)

theorem ending_takeOut (r : Register) (m : Machine) :
    (takeOut r m).ending =
      (m.value r).andThen m fun v => (.ok v, { m with registers := m.registers.set r.number .nothing }) := by
  unfold takeOut
  rw [Action.ending_bind_of_ending (ending_read r m)]
  cases hv : m.value r with
  | ok v =>
    have hlt : r.number < m.registers.length :=
      (List.getElem?_eq_some_iff.mp (Outcome.ofOption_eq_ok_iff.mp hv)).1
    have hwrite := ending_write r .nothing m
    rw [put, if_pos hlt] at hwrite
    rw [Outcome.andThen_ok, Action.ending_bind_of_ending hwrite]
    rfl
  | error cause => rfl
  | fault cause => rfl

/-- A run carries out the next instruction, and goes on if it neither fails nor returns. -/
theorem ending_runFrom_cons (i : Instruction) (m : Machine) :
    (runFrom length pc (i :: rest) m).ending =
      (m.step i).1.andThen (m.step i).2 fun _ =>
        match i.returned? with
        | none => (runFrom length (pc + 1) rest (m.step i).2).ending
        | some src => (takeOut src (m.step i).2).ending := by
  have htrace : (traceStep pc i m).ending = (.ok (), m) := by
    unfold traceStep
    rw [Action.bind_apply_of_ok (Action.state_apply m), Action.ending_after]
    split <;> rfl
  have hlog : (Action.logError (evaluate i) (Event.failed pc) m).ending =
      ((m.step i).1, (m.step i).2) := by
    rw [Action.ending_logError, ending_evaluate]
  rw [runFrom, Action.ending_bind_of_ending htrace, Outcome.andThen_ok,
    Action.ending_bind_of_ending hlog]
  cases i.returned? <;> rfl

theorem ending_runFrom_nil (m : Machine) :
    (runFrom length pc [] m).ending = (.error (.endOfProgram pc length), m) := rfl

theorem ending_run (program : Program) (m : Machine) :
    (run program m).ending = (runFrom program.length 0 program (clearRegisters m)).ending := by
  unfold run
  rw [Action.bind_apply_of_ok (Action.modify_apply clearRegisters m), Action.ending_after]

end Run

/-- `Executes p m m'`: from `m`, the instructions of `p` are carried out one after the other without
failure or return, and leave `m'`. -/
inductive Executes : Program → Machine → Machine → Prop
  | nil (m : Machine) : Executes [] m m
  | cons {i : Instruction} {rest : Program} {m m₁ m' : Machine} (hstep : m.step i = (.ok (), m₁))
    (hnext : i.returned? = none) (hrest : Executes rest m₁ m') : Executes (i :: rest) m m'

section Induction
variable {I : Machine → Prop} (hstep : ∀ m i, I m → I (m.step i).2)

include hstep in
theorem Executes.preserves {p : Program} (h : Executes p m m') (hm : I m) : I m' := by
  induction h with
  | nil m => exact hm
  | @cons i rest m m₁ m' hi _ _ ih =>
    have hnext := hstep m i hm
    rw [hi] at hnext
    exact ih hnext

variable (htake : ∀ m r, I m → I { m with registers := m.registers.set r .nothing })

include hstep htake in
/-- What is preserved by each instruction, and by taking out the returned value, is preserved by the rest of
a run. -/
theorem runFrom_induction (length pc : Nat) (p : Program) (m : Machine) (hm : I m) :
    I (runFrom length pc p m).ending.2 := by
  induction p generalizing pc m with
  | nil =>
    rw [ending_runFrom_nil]
    exact hm
  | cons i rest ih =>
    rw [ending_runFrom_cons]
    have hnext := hstep m i hm
    generalize m.step i = r at hnext ⊢
    obtain ⟨_ | _ | _, m₁⟩ := r
    · -- The rest of the program follows, or the register that is returned is emptied.
      rw [Outcome.andThen_ok]
      cases i.returned? with
      | none => exact ih (pc + 1) m₁ hnext
      | some src =>
        change I (takeOut src m₁).ending.2
        rw [ending_takeOut]
        cases m₁.value src with
        | ok v => exact htake m₁ src.number hnext
        | error e => exact hnext
        | fault c => exact hnext
    · exact hnext
    · exact hnext

include hstep htake in
/-- What each instruction and the loss of a returned value preserve is preserved by a run. -/
theorem run_induction (p : Program) (hm : I (clearRegisters m)) : I (run p m).state := by
  have hrun : (run p m).state = (runFrom p.length 0 p (clearRegisters m)).ending.2 :=
    congrArg Prod.snd (ending_run p m)
  rw [hrun]
  exact runFrom_induction hstep htake _ _ p _ hm

end Induction

end SequenceMachine.Machine
