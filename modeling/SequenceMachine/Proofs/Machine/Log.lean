import SequenceMachine.Proofs.Machine.Telling

/-!
The log of a run: the events of the instructions it comes to, one after the other (`events_runFrom`).
Only the last of them can fail, so a run that is ended by a failure logs it at the end, after the warning
of a refused length (`log_of_failed`), and no other run logs a failure or a warning (`log_of_unfailed`). The
settings that ask for the steps have no part in anything else (`runFrom_untraced`).
-/

namespace SequenceMachine.Machine

variable {p : Program} {m m' m₁ : Machine} {i : Instruction} {k : Nat} {e : Error} {events : List Event}

def visits : Program → Machine → List (Instruction × Machine)
  | [], _ => []
  | i :: rest, m => (i, m) :: match m.step i, i.returned? with
    | (.ok (), m'), none => visits rest m'
    | _, _ => []

def reports (pc : Nat) (i : Instruction) (m : Machine) : List Event :=
  (evaluate i m).events ++ Action.reported (fun e => [.failed pc e]) (evaluate i m).outcome

def lines (pc : Nat) (i : Instruction) (m : Machine) : List Event :=
  (if m.config.traceInstructions then [.step pc i] else []) ++ reports pc i m

section Visits

/-- What a program comes to is its first instruction, or what the rest comes to if that one goes on. -/
theorem Reaches.cons_cases {j : Instruction} {rest : Program} (h : Reaches (i :: rest) m k j m') :
    (k = 0 ∧ j = i ∧ m' = m) ∨ ∃ k' m₁, k = k' + 1 ∧ m.step i = (.ok (), m₁) ∧ i.returned? = none ∧
      Reaches rest m₁ k' j m' := by
  cases k with
  | zero => exact .inl ⟨rfl, h.eq_first⟩
  | succ k =>
    obtain ⟨m₁, hstep, hnext, hlater⟩ := h.exists_later
    exact .inr ⟨k, m₁, rfl, hstep, hnext, hlater⟩

/-- The visits are what carrying out the program comes to, in order. -/
theorem getElem?_visits_iff : (visits p m)[k]? = some (i, m') ↔ Reaches p m k i m' := by
  induction p generalizing m k with
  | nil => simp [visits, Reaches]
  | cons j rest ih =>
    cases k with
    | zero =>
      rw [visits, List.getElem?_cons_zero, Option.some_inj, Prod.mk.injEq]
      constructor
      · rintro ⟨rfl, rfl⟩
        exact .first j rest m
      · intro h
        obtain ⟨rfl, rfl⟩ := h.eq_first
        exact ⟨rfl, rfl⟩
    | succ k =>
      rw [visits, List.getElem?_cons_succ]
      constructor
      · intro h
        split at h
        · next m₁ hstep hnext => exact (ih.mp h).later hstep hnext
        · cases h
      · intro h
        obtain ⟨m₁, hstep, hnext, hlater⟩ := h.exists_later
        rw [hstep, hnext]
        exact ih.mpr hlater

end Visits

section Events
variable (length pc : Nat) (rest : Program)

theorem traceStep_apply (pc : Nat) (i : Instruction) (m : Machine) :
    traceStep pc i m = ⟨.ok (), m, if m.config.traceInstructions then [.step pc i] else []⟩ := by
  unfold traceStep
  rw [Action.bind_apply_of_ok (Action.state_apply m)]
  split <;> rfl

theorem evaluate_apply {x : Outcome Error Unit} (hstep : m.step i = (x, m₁)) :
    evaluate i m = ⟨x, m₁, (evaluate i m).events⟩ := by
  apply Result.eq_of_ending
  rw [ending_evaluate, hstep]

theorem lines_of_step {x : Outcome Error Unit} (hstep : m.step i = (x, m₁)) :
    lines pc i m = (if m.config.traceInstructions then [.step pc i] else []) ++
      ((evaluate i m).events ++ Action.reported (fun e => [.failed pc e]) x) := by
  rw [lines, reports, outcome_evaluate, hstep]

/-- The lines of an instruction that succeeds come before all that follows. -/
theorem runFrom_cons_of_ok (hstep : m.step i = (.ok (), m₁)) :
    runFrom length pc (i :: rest) m =
      (match i.returned? with
        | none => runFrom length (pc + 1) rest m₁
        | some src => takeOut src m₁).after (lines pc i m) := by
  have hlogged : Action.logError (evaluate i) (Event.failed pc) m =
      ⟨.ok (), m₁, (evaluate i m).events⟩ := by
    rw [Action.logError, evaluate_apply hstep]
  rw [runFrom, Action.bind_apply_of_ok (traceStep_apply pc i m), Action.bind_apply_of_ok hlogged,
    Action.after_after, lines_of_step pc hstep, Action.reported_ok, List.append_nil]
  cases i.returned? <;> rfl

/-- After a failure nothing more is logged. -/
theorem runFrom_cons_of_error (hstep : m.step i = (.error e, m₁)) :
    runFrom length pc (i :: rest) m = ⟨.error e, m₁, lines pc i m⟩ := by
  have hlogged : Action.logError (evaluate i) (Event.failed pc) m =
      ⟨.error e, m₁, (evaluate i m).events ++ [.failed pc e]⟩ := by
    rw [Action.logError, evaluate_apply hstep]
  rw [runFrom, Action.bind_apply_of_ok (traceStep_apply pc i m), Action.bind_apply_of_error hlogged,
    Action.after_mk, lines_of_step pc hstep, Action.reported_error]

theorem runFrom_cons_of_fault {c : Fault} (hstep : m.step i = (.fault c, m₁)) :
    runFrom length pc (i :: rest) m = ⟨.fault c, m₁, lines pc i m⟩ := by
  have hlogged : Action.logError (evaluate i) (Event.failed pc) m =
      ⟨.fault c, m₁, (evaluate i m).events⟩ := by
    rw [Action.logError, evaluate_apply hstep]
  rw [runFrom, Action.bind_apply_of_ok (traceStep_apply pc i m), Action.bind_apply_of_fault hlogged,
    Action.after_mk, lines_of_step pc hstep, Action.reported_fault, List.append_nil]

theorem events_takeOut (r : Register) (m : Machine) : (takeOut r m).events = [] :=
  (emitsOnly_takeOut r).silent

/-- The log of a run is that of the instructions it comes to, one after the other. -/
theorem events_runFrom (p : Program) (m : Machine) :
    (runFrom length pc p m).events =
      ((visits p m).zipIdx pc).flatMap fun v => lines v.2 v.1.1 v.1.2 := by
  induction p generalizing pc m with
  | nil => rfl
  | cons i rest ih =>
    rw [visits, List.zipIdx_cons, List.flatMap_cons]
    cases hstep : m.step i with
    | mk x m₁ =>
      cases x with
      | ok u =>
        rw [runFrom_cons_of_ok length pc rest hstep]
        change lines pc i m ++ _ = _
        congr 1
        cases i.returned? with
        | none => exact ih (pc + 1) m₁
        | some src => exact events_takeOut src m₁
      | error e =>
        rw [runFrom_cons_of_error length pc rest hstep]
        exact (List.append_nil _).symm
      | fault c =>
        rw [runFrom_cons_of_fault length pc rest hstep]
        exact (List.append_nil _).symm

end Events

section Failure

def Event.Calm : Event → Prop
  | .failed _ _ => False
  | .overLimit _ _ => False
  | _ => True

/-- A failing instruction tells its warning, and nothing of what it did before. -/
theorem Tells.events_of_error (h : Tells m i (.error e) events) : events = e.warnings := by
  cases h
  rfl

/-- An instruction that does not fail tells no failure and no refused length. -/
theorem Tells.calm {x : Outcome Error Unit} (h : Tells m i x events) (hx : ∀ e, x ≠ .error e) :
    ∀ event ∈ events, event.Calm := by
  cases h with
  | assigned ha hdst hsrc ht =>
    intro event hevent
    rcases Assignment.mem_events hevent with rfl | rfl <;> exact True.intro
  | silent hi => exact fun event hevent => absurd hevent List.not_mem_nil
  | failed i e => exact absurd rfl (hx e)
  | fault i c => exact fun event hevent => absurd hevent List.not_mem_nil

/-- What an instruction tells follows from how it ends. -/
theorem tells_of_step {x : Outcome Error Unit} (hstep : m.step i = (x, m₁)) :
    Tells m i x (evaluate i m).events := by
  have htells := tells_evaluate i m
  rwa [outcome_evaluate, hstep] at htells

theorem calm_trace (pc : Nat) (i : Instruction) (traced : Bool) :
    ∀ event ∈ (if traced then [Event.step pc i] else []), event.Calm := by
  intro event hevent
  split at hevent
  · rw [List.mem_singleton.mp hevent]
    exact True.intro
  · cases hevent

/-- The lines of an instruction that does not fail hold neither a failure nor a warning. -/
theorem calm_lines {x : Outcome Error Unit} (hstep : m.step i = (x, m₁)) (hx : ∀ e, x ≠ .error e)
    (pc : Nat) : ∀ event ∈ lines pc i m, event.Calm := by
  have hsilent : Action.reported (fun e => [Event.failed pc e]) x = [] := by
    cases x with
    | error e => exact absurd rfl (hx e)
    | _ => rfl
  rw [lines_of_step pc hstep, hsilent, List.append_nil, List.forall_mem_append]
  exact ⟨calm_trace pc i _, (tells_of_step hstep).calm hx⟩

/-- The instruction that fails is the last one. Its failure ends the log, after the warning of a refused
length, and before that the log tells no failure and no warning. -/
theorem log_of_failed (h : Reaches p m k i m') (hfailed : (m'.step i).1 = .error e) (length pc : Nat) :
    (runFrom length pc p m).outcome = .error e ∧ (visits p m).length = k + 1 ∧
      ∃ before, (runFrom length pc p m).events = before ++ (e.warnings ++ [.failed (pc + k) e]) ∧
        ∀ event ∈ before, event.Calm := by
  -- By induction on the program: the instruction that fails is its first one, or one of the rest.
  induction p generalizing pc m k with
  | nil => cases h.1
  | cons j rest ih =>
    rcases h.cons_cases with ⟨rfl, rfl, rfl⟩ | ⟨k, m₁, rfl, hstep, hnext, hlater⟩
    · have hstep : m'.step i = (.error e, (m'.step i).2) := Prod.ext hfailed rfl
      rw [runFrom_cons_of_error length pc rest hstep, visits, hstep]
      refine ⟨rfl, rfl, _, ?_, calm_trace pc i m'.config.traceInstructions⟩
      rw [lines_of_step pc hstep, (tells_of_step hstep).events_of_error, Action.reported_error,
        Nat.add_zero]
    · -- What the rest of the run logs comes after what this instruction logs, and neither fails.
      obtain ⟨hend, hlength, before, hlog, hcalm⟩ := ih hlater (pc + 1)
      rw [runFrom_cons_of_ok length pc rest hstep, hnext, visits, hstep, hnext]
      refine ⟨hend, congrArg (· + 1) hlength, lines pc j m ++ before, ?_, ?_⟩
      · change lines pc j m ++ (runFrom length (pc + 1) rest m₁).events = _
        rw [hlog, List.append_assoc, Nat.add_assoc, Nat.add_comm 1 k]
      · exact List.forall_mem_append.mpr ⟨calm_lines hstep nofun pc, hcalm⟩

/-- Where no instruction fails, the log tells no failure and no warning. -/
theorem log_of_unfailed (h : ∀ k i m' e, Reaches p m k i m' → (m'.step i).1 ≠ .error e) (length pc : Nat) :
    ∀ event ∈ (runFrom length pc p m).events, event.Calm := by
  intro event hevent
  rw [events_runFrom] at hevent
  obtain ⟨⟨⟨i, m'⟩, l⟩, hv, hline⟩ := List.mem_flatMap.mp hevent
  obtain ⟨k, hk⟩ := List.mem_iff_getElem?.mp (List.fst_mem_of_mem_zipIdx hv)
  exact calm_lines rfl (fun e => h k i m' e (getElem?_visits_iff.mp hk)) l event hline

end Failure

section Steps

def Event.isStep : Event → Bool
  | .step _ _ => true
  | _ => false

theorem Tells.not_isStep {x : Outcome Error Unit} (h : Tells m i x events) :
    ∀ event ∈ events, event.isStep = false := by
  cases h with
  | assigned ha hdst hsrc ht =>
    intro event hevent
    rcases Assignment.mem_events hevent with rfl | rfl <;> rfl
  | silent hi => exact fun event hevent => absurd hevent List.not_mem_nil
  | failed i e =>
    intro event hevent
    cases e with
    | overLimit length max =>
      rw [List.mem_singleton.mp hevent]
      rfl
    | _ => cases hevent
  | fault i c => exact fun event hevent => absurd hevent List.not_mem_nil

theorem not_isStep_reports (pc : Nat) (i : Instruction) (m : Machine) :
    ∀ event ∈ reports pc i m, event.isStep = false := by
  refine List.forall_mem_append.mpr ⟨(tells_evaluate i m).not_isStep, ?_⟩
  cases (evaluate i m).outcome with
  | error e => exact List.forall_mem_singleton.mpr rfl
  | ok u => exact fun event hevent => absurd hevent List.not_mem_nil
  | fault c => exact fun event hevent => absurd hevent List.not_mem_nil

/-- Each instruction logs its step once, where the steps are asked for. -/
theorem filter_isStep_lines (pc : Nat) (i : Instruction) (m : Machine) :
    (lines pc i m).filter Event.isStep = if m.config.traceInstructions then [.step pc i] else [] := by
  have hnone : (reports pc i m).filter Event.isStep = [] := by
    apply List.filter_eq_nil_iff.mpr
    intro event hevent
    rw [not_isStep_reports pc i m event hevent]
    exact Bool.false_ne_true
  rw [lines, List.filter_append, hnone, List.append_nil]
  split <;> rfl

/-- Without the step, what is left of the log of an instruction is what it tells. -/
theorem filter_not_isStep_lines (pc : Nat) (i : Instruction) (m : Machine) :
    ((lines pc i m).filter fun event => !event.isStep) = reports pc i m := by
  have hall : ((reports pc i m).filter fun event => !event.isStep) = reports pc i m := by
    apply List.filter_eq_self.mpr
    intro event hevent
    rw [not_isStep_reports pc i m event hevent]
    rfl
  rw [lines, List.filter_append, hall]
  split <;> rfl

theorem Reaches.config (h : Reaches p m k i m') : m'.config = m.config :=
  h.2.preserves (fun m₁ j h => (config_step m₁ j).trans h) rfl

/-- Where the settings ask for them, the steps of a run are those of the instructions it comes to. -/
theorem filter_isStep_runFrom (length pc : Nat) (p : Program) (htrace : m.config.traceInstructions = true) :
    (runFrom length pc p m).events.filter Event.isStep =
      ((visits p m).zipIdx pc).map fun v => .step v.2 v.1.1 := by
  rw [events_runFrom, List.filter_flatMap, List.map_eq_flatMap]
  apply List.flatMap_congr
  rintro ⟨⟨i, m'⟩, k⟩ hv
  obtain ⟨n, hn⟩ := List.mem_iff_getElem?.mp (List.fst_mem_of_mem_zipIdx hv)
  have hconfig : m'.config = m.config := (getElem?_visits_iff.mp hn).config
  dsimp only
  rw [filter_isStep_lines, hconfig, if_pos htrace]

end Steps

section Untraced

def untraced (m : Machine) : Machine :=
  { m with config := { m.config with traceInstructions := false } }

def withoutSteps {α : Type} (r : Result Error Event Machine α) : Result Error Event Machine α :=
  ⟨r.outcome, untraced r.state, r.events.filter fun event => !event.isStep⟩

theorem plan_untraced (m : Machine) (i : Instruction) : (untraced m).plan i = m.plan i := by
  cases i <;> rfl

theorem put_untraced (m : Machine) (r : Register) (v : Value) :
    (untraced m).put r v = ((m.put r v).1, untraced (m.put r v).2) := by
  change (if r.number < m.registers.length then _ else _) = _
  unfold put
  split <;> rfl

theorem commit_untraced (m : Machine) (e : Effect) :
    (untraced m).commit e = ((m.commit e).1, untraced (m.commit e).2) := by
  cases e with
  | load dst v => exact put_untraced m dst v
  | store dst s => exact put_untraced { m with heap := m.heap.add s } dst _
  | _ => rfl

/-- Whether the steps are logged has no part in what an instruction does. -/
theorem step_untraced (m : Machine) (i : Instruction) :
    (untraced m).step i = ((m.step i).1, untraced (m.step i).2) := by
  rw [step, plan_untraced, step]
  cases m.plan i with
  | ok e => exact commit_untraced m e
  | error e => rfl
  | fault c => rfl

theorem Tells.untraced {x : Outcome Error Unit} (h : Tells m i x events) :
    Tells (untraced m) i x events := by
  cases h with
  | assigned ha hdst hsrc ht => exact .assigned ⟨ha.dst, ha.left, ha.right, ha.src⟩ hdst hsrc ht
  | silent hi => exact .silent hi
  | failed i e => exact .failed i e
  | fault i c => exact .fault i c

/-- The instruction and its outcome decide what is told. -/
theorem Tells.unique {x : Outcome Error Unit} {events' : List Event} (h : Tells m i x events)
    (h' : Tells m i x events') : events = events' := by
  cases h with
  | @assigned seq left right src a target source t ha hdst hsrc ht =>
    cases h' with
    | assigned ha' hdst' hsrc' ht' =>
      -- The registers and the heap decide what is assigned, and its target.
      obtain rfl := ha.unique ha'
      obtain rfl := Option.some.inj (hdst.symm.trans hdst')
      obtain rfl := Option.some.inj (hsrc.symm.trans hsrc')
      obtain rfl := Outcome.ok.inj (ht.symm.trans ht')
      rfl
    | silent hi => cases hi
  | silent hi =>
    cases h' with
    | assigned => cases hi
    | silent hi' => rfl
  | failed i e => exact h'.events_of_error.symm
  | fault i c =>
    cases h'
    rfl

theorem events_evaluate_untraced (i : Instruction) (m : Machine) :
    (evaluate i (untraced m)).events = (evaluate i m).events := by
  have htells := tells_evaluate i (untraced m)
  rw [outcome_evaluate, step_untraced, ← outcome_evaluate] at htells
  exact htells.unique (tells_evaluate i m).untraced

/-- Without the trace an instruction logs the same, but for its step. -/
theorem lines_untraced (pc : Nat) (i : Instruction) (m : Machine) :
    lines pc i (untraced m) = (lines pc i m).filter fun event => !event.isStep := by
  rw [filter_not_isStep_lines]
  change reports pc i (untraced m) = reports pc i m
  rw [reports, events_evaluate_untraced, outcome_evaluate, step_untraced, ← outcome_evaluate, reports]

theorem withoutSteps_after {α : Type} (events : List Event) (r : Result Error Event Machine α) :
    withoutSteps (r.after events) =
      (withoutSteps r).after (events.filter fun event => !event.isStep) := by
  rw [withoutSteps, Result.after, List.filter_append]
  rfl

theorem takeOut_untraced (r : Register) (m : Machine) :
    takeOut r (untraced m) = withoutSteps (takeOut r m) := by
  have hending : (takeOut r (untraced m)).ending =
      ((takeOut r m).outcome, untraced (takeOut r m).state) := by
    have htaken := ending_takeOut r m
    change ((takeOut r m).outcome, (takeOut r m).state) = _ at htaken
    obtain ⟨houtcome, hstate⟩ := Prod.mk.inj htaken
    rw [ending_takeOut, houtcome, hstate]
    change (m.value r).andThen _ _ = _
    cases m.value r <;> rfl
  rw [Result.eq_of_ending hending, events_takeOut, withoutSteps, events_takeOut]
  rfl

/-- Without the steps, a run is the same and its log is what is left of the log. -/
theorem runFrom_untraced (length pc : Nat) (p : Program) (m : Machine) :
    runFrom length pc p (untraced m) = withoutSteps (runFrom length pc p m) := by
  induction p generalizing pc m with
  | nil => rfl
  | cons i rest ih =>
    cases hstep : m.step i with
    | mk x m₁ =>
      have hstep' : (untraced m).step i = (x, untraced m₁) := by rw [step_untraced, hstep]
      cases x with
      | ok u =>
        rw [runFrom_cons_of_ok length pc rest hstep, runFrom_cons_of_ok length pc rest hstep',
          lines_untraced, withoutSteps_after]
        congr 1
        cases i.returned? with
        | none => exact ih (pc + 1) m₁
        | some src => exact takeOut_untraced src m₁
      | error e =>
        rw [runFrom_cons_of_error length pc rest hstep, runFrom_cons_of_error length pc rest hstep',
          lines_untraced]
        rfl
      | fault c =>
        rw [runFrom_cons_of_fault length pc rest hstep, runFrom_cons_of_fault length pc rest hstep',
          lines_untraced]
        rfl

end Untraced

section Recount

/-- The log of the result `r` recounts the run of `p` that starts from the state `m` and ends in `r`. -/
structure Recounts (p : Program) (m : Machine) (r : Result Error Event Machine Value) : Prop where
  -- The log is that of the instructions that the run comes to, one after the other.
  visited : ∀ k i m', (visits p m)[k]? = some (i, m') ↔ Reaches p m k i m'
  lined : r.events = (visits p m).zipIdx.flatMap fun v => lines v.2 v.1.1 v.1.2
  told : ∀ k i m', Reaches p m k i m' → Tells m' i (evaluate i m').outcome (evaluate i m').events
  stepped : m.config.traceInstructions = true →
    r.events.filter Event.isStep = (visits p m).zipIdx.map fun v => .step v.2 v.1.1
  failed : ∀ k e, .failed k e ∈ r.events ↔
    ∃ i m', Reaches p m k i m' ∧ (evaluate i m').outcome = .error e
  failedLast : ∀ k e, .failed k e ∈ r.events → r.outcome = .error e ∧ (visits p m).length = k + 1 ∧
    ∃ before, r.events = before ++ (e.warnings ++ [.failed k e]) ∧ ∀ event ∈ before, event.Calm
  warned : ∀ length max, .overLimit length max ∈ r.events ↔
    r.outcome = .error (.overLimit length max)
  warnedLast : ∀ length max, .overLimit length max ∈ r.events →
    ∃ k before, r.events = before ++ [.overLimit length max, .failed k (.overLimit length max)] ∧
      ∀ event ∈ before, event.Calm

theorem run_apply (p : Program) (m : Machine) :
    run p m = runFrom p.length 0 p (clearRegisters m) := rfl

/-- Only a refused length is warned of, with that length. -/
theorem mem_warnings {event : Event} (h : event ∈ e.warnings) :
    ∃ length max, e = .overLimit length max ∧ event = .overLimit length max := by
  cases e with
  | overLimit length max => exact ⟨length, max, rfl, List.mem_singleton.mp h⟩
  | _ => cases h

/-- A failure or a warning in the log is that of an instruction that the run comes to. -/
theorem exists_failed_of_not_calm {length pc : Nat} {event : Event}
    (hevent : event ∈ (runFrom length pc p m).events) (hcalm : ¬ event.Calm) :
    ∃ k i m' e, Reaches p m k i m' ∧ (m'.step i).1 = .error e ∧
      (event ∈ e.warnings ∨ event = .failed (pc + k) e) := by
  have hfails : ∃ k i m' e, Reaches p m k i m' ∧ (m'.step i).1 = .error e := by
    by_contra hnone
    refine hcalm (log_of_unfailed (fun k i m' e hreach hfailed => hnone ?_) length pc event hevent)
    exact ⟨k, i, m', e, hreach, hfailed⟩
  obtain ⟨k, i, m', e, hreach, hfailed⟩ := hfails
  obtain ⟨-, -, before, hlog, hbefore⟩ := log_of_failed hreach hfailed length pc
  refine ⟨k, i, m', e, hreach, hfailed, ?_⟩
  rw [hlog, List.mem_append, List.mem_append, List.mem_singleton] at hevent
  exact hevent.resolve_left fun h => hcalm (hbefore event h)

/-- What an instruction that fails logs is logged by the run. -/
theorem mem_log_of_failed (h : Reaches p m k i m') (hfailed : (m'.step i).1 = .error e) (length pc : Nat)
    {event : Event} (hevent : event ∈ e.warnings ++ [.failed (pc + k) e]) :
    event ∈ (runFrom length pc p m).events := by
  obtain ⟨-, -, before, hlog, -⟩ := log_of_failed h hfailed length pc
  rw [hlog]
  exact List.mem_append_right before hevent

/-- A failure is logged exactly for an instruction that the run comes to and that fails. -/
theorem failed_mem_iff {length pc : Nat} :
    .failed (pc + k) e ∈ (runFrom length pc p m).events ↔
      ∃ i m', Reaches p m k i m' ∧ (m'.step i).1 = .error e := by
  constructor
  · intro hevent
    obtain ⟨k', i, m', e', hreach, hfailed, hwarning | heq⟩ := exists_failed_of_not_calm hevent id
    · obtain ⟨_, _, _, heq⟩ := mem_warnings hwarning
      cases heq
    · obtain ⟨hk, rfl⟩ := Event.failed.inj heq
      obtain rfl := Nat.add_left_cancel hk
      exact ⟨i, m', hreach, hfailed⟩
  · rintro ⟨i, m', hreach, hfailed⟩
    exact mem_log_of_failed hreach hfailed length pc (List.mem_append_right _ (List.mem_singleton_self _))

/-- A warning in the log is that of the instruction that fails. -/
theorem exists_of_overLimit_mem {length pc n max : Nat}
    (h : .overLimit n max ∈ (runFrom length pc p m).events) :
    ∃ k i m', Reaches p m k i m' ∧ (m'.step i).1 = .error (.overLimit n max) := by
  obtain ⟨k, i, m', e, hreach, hfailed, hwarning | heq⟩ := exists_failed_of_not_calm h id
  · obtain ⟨_, _, rfl, heq⟩ := mem_warnings hwarning
    cases heq
    exact ⟨k, i, m', hreach, hfailed⟩
  · cases heq

/-- A warning is logged exactly in a run that ends in the refusal of that length. -/
theorem overLimit_mem_iff {n max : Nat} :
    .overLimit n max ∈ (run p m).events ↔ (run p m).outcome = .error (.overLimit n max) := by
  constructor
  · intro h
    obtain ⟨k, i, m', hreach, hfailed⟩ := exists_of_overLimit_mem h
    exact (log_of_failed hreach hfailed p.length 0).1
  · intro h
    rcases exists_reaches_of_error h with heq | ⟨k, i, m', hreach, hfailed | ⟨src, rfl, hvalue⟩⟩
    · cases heq
    · exact mem_log_of_failed hreach hfailed p.length 0 (List.mem_append_left _ (List.mem_singleton_self _))
    · -- A register that does not exist is no refused length.
      cases (value_eq_error_iff.mp hvalue).1

theorem recounts_run (p : Program) (m : Machine) : Recounts p (clearRegisters m) (run p m) where
  visited _ _ _ := getElem?_visits_iff
  lined := events_runFrom p.length 0 p (clearRegisters m)
  told _ i m' _ := tells_evaluate i m'
  stepped htrace := filter_isStep_runFrom p.length 0 p htrace
  failed k e := by
    simp only [outcome_evaluate]
    rw [run_apply, ← failed_mem_iff, Nat.zero_add]
  failedLast k e h := by
    rw [run_apply, ← Nat.zero_add k, failed_mem_iff] at h
    obtain ⟨i, m', hreach, hfailed⟩ := h
    have hlast := log_of_failed hreach hfailed p.length 0
    rwa [Nat.zero_add] at hlast
  warned _ _ := overLimit_mem_iff
  warnedLast n max h := by
    obtain ⟨k, i, m', hreach, hfailed⟩ := exists_of_overLimit_mem h
    exact ⟨0 + k, (log_of_failed hreach hfailed p.length 0).2.2⟩

/-- Without the trace a run ends the same, and logs the same but for the steps. -/
theorem run_untraced (p : Program) (m : Machine) : run p (untraced m) = withoutSteps (run p m) :=
  runFrom_untraced p.length 0 p (clearRegisters m)

end Recount

end SequenceMachine.Machine
