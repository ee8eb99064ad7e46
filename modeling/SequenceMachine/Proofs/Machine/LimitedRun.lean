import SequenceMachine.Proofs.Machine.Course
import SequenceMachine.Proofs.Machine.Curb
import SequenceMachine.Proofs.Machine.Isolation

/-!
Runs under a limit. The run on a machine with a limit goes in step with the run on a machine without one,
up to the first instruction that gives a sequence a greater length there (`FirstToExceed`). That
instruction is refused, with the length it would have given, and changes nothing.
-/

namespace SequenceMachine.Machine

variable {m m' m₁ : Machine} {i : Instruction} {e : Effect} {n k length : Nat} {p : Program}

/-- The length that an instruction gives to a sequence, by allocating it or by assigning or adding to it. -/
def producedLength? (i : Instruction) (m : Machine) : Option Nat := do
  let after := (evaluate i m).state
  let r ← i.sized?
  let v ← after.registers[r.number]?
  let id ← v.asSeq?
  let s ← after.heap.get? id
  return s.length

def Exceeds (n : Nat) (m : Machine) (i : Instruction) (length : Nat) : Prop :=
  ((evaluate i m).outcome = .ok () ∧ producedLength? i m = some length ∧ n < length) ∨
    ∃ max, (evaluate i m).outcome = .error (.overLimit length max)

/-- Instruction `k` of a program, which is `i` and which carrying out the program from `m` comes to in the
state `m₁`, is the first to exceed `n`. -/
structure FirstToExceed (n : Nat) (p : Program) (m : Machine) (k : Nat) (i : Instruction) (m₁ : Machine)
    (length : Nat) : Prop where
  reaches : Reaches p m k i m₁
  exceeds : Exceeds n m₁ i length
  first : ∀ l j m₂ length', l < k → Reaches p m l j m₂ → ¬ Exceeds n m₂ j length'

def NeverExceeds (n : Nat) (p : Program) (m : Machine) : Prop :=
  ∀ k i m₁ length, Reaches p m k i m₁ → ¬ Exceeds n m₁ i length

section Produced

/-- The produced length is that of the sequence which the register names afterwards. -/
theorem producedLength?_of_held {r : Register} {id : Handle} {s : Sequence Value} (hr : i.sized? = some r)
    (hid : (m.step i).2.registers[r.number]? = some (.seq id))
    (hs : (m.step i).2.heap.get? id = some s) : producedLength? i m = some s.length := by
  unfold producedLength?
  rw [state_evaluate, hr]
  simp only [Option.bind_eq_bind, Option.bind_some, hid, Value.asSeq?, hs]
  rfl

/-- The length of a sequence that is stored for a register is the one that comes about. -/
theorem producedLength?_of_store {dst : Register} {s : Sequence Value} (hs : m.heap.Sound)
    (hplan : m.plan i = .ok (.store dst s)) (hok : (m.commit (.store dst s)).1 = .ok ())
    (hi : i.sized? = some dst) : producedLength? i m = some s.length := by
  have hlt : dst.number < { m with heap := m.heap.add s }.registers.length := by
    apply Nat.lt_of_not_le
    intro hmissing
    change (put _ dst _).1 = .ok () at hok
    rw [put_of_le hmissing] at hok
    cases hok
  have hcommit : m.commit (.store dst s) = _ := put_of_lt hlt _
  have hheld : (m.step i).2.registers[dst.number]? = some (.seq ⟨m.heap.upcoming 0⟩) := by
    rw [step_of_plan hplan, hcommit]
    exact List.getElem?_set_self hlt
  have hlive : (m.step i).2.heap.get? ⟨m.heap.upcoming 0⟩ = some s := by
    rw [step_of_plan hplan, heap_commit]
    change (m.heap.add s).get? _ = some s
    rw [Heap.get?_add hs, if_pos rfl]
  exact producedLength?_of_held hi hheld hlive

/-- An instruction that replaces a live sequence leaves the register that holds its handle. -/
theorem producedLength?_of_replace {seq : Register} {id : Handle} {s t : Sequence Value}
    (hplan : m.plan i = .ok (.replace id t)) (hi : i.sized? = some seq) (hid : m.handle seq = .ok id)
    (hs : m.heap.get? id = some s) : producedLength? i m = some t.length := by
  have hheld : (m.step i).2.registers[seq.number]? = some (.seq id) := by
    rw [step_of_plan hplan]
    exact handle_eq_ok_iff.mp hid
  have hlive : (m.step i).2.heap.get? id = some t := by
    rw [step_of_plan hplan, heap_commit]
    exact Heap.get?_replace_self hs t
  exact producedLength?_of_held hi hheld hlive

/-- The length that comes about is the one that was planned. -/
theorem producedLength?_eq_planned (hs : m.heap.Sound) (hplan : m.plan i = .ok e)
    (hok : (m.commit e).1 = .ok ()) : producedLength? i m = plannedLength? i e := by
  cases plans_of_plan_eq_ok hplan with
  | newSeq | collect | slice => exact producedLength?_of_store hs hplan hok rfl
  | setSlice hl hr hdst hid hsource htarget hlength hle ht =>
    exact producedLength?_of_replace hplan rfl hdst htarget
  | push hv hid hs hlength => exact producedLength?_of_replace hplan rfl hid hs
  | _ => rfl

end Produced

section Step

theorem Twins.put (ht : Twins m m') (r : Register) (v : Value) :
    (m'.put r v).1 = (m.put r v).1 ∧ Twins (m.put r v).2 (m'.put r v).2 := by
  unfold Machine.put
  rw [ht.registers]
  split
  · exact ⟨rfl, rfl, ht.heap⟩
  · exact ⟨rfl, ht⟩

/-- Twins commit an effect alike, as the settings have no part in it. -/
theorem Twins.commit (ht : Twins m m') (e : Effect) :
    (m'.commit e).1 = (m.commit e).1 ∧ Twins (m.commit e).2 (m'.commit e).2 := by
  cases e with
  | none => exact ⟨rfl, ht⟩
  | load dst v => exact ht.put dst v
  | store dst s =>
    unfold Machine.commit
    rw [ht.heap]
    have hstored : Twins { m with heap := m.heap.add s } { m' with heap := m.heap.add s } :=
      ⟨ht.registers, rfl⟩
    exact hstored.put dst _
  | replace id s => exact ⟨rfl, ht.registers, congrArg (Heap.replace · id s) ht.heap⟩
  | release id => exact ⟨rfl, ht.registers, congrArg (Heap.remove · id) ht.heap⟩

/-- An effect fails only for want of the register that it loads. -/
theorem commit_eq_ok (h : ∀ r ∈ e.loaded?, r.number < m.registers.length) : (m.commit e).1 = .ok () := by
  cases e with
  | none | replace | release => rfl
  | load dst v => exact congrArg Prod.fst (put_of_lt (h dst rfl) v)
  | store dst s =>
    have hlt : dst.number < { m with heap := m.heap.add s }.registers.length := h dst rfl
    exact congrArg Prod.fst (put_of_lt hlt _)

/-- A length is refused by a plan, and not while an effect is committed. -/
theorem plan_of_step_overLimit {max : Nat} (h : (m.step i).1 = .error (.overLimit length max)) :
    m.plan i = .error (.overLimit length max) := by
  cases hplan : m.plan i with
  | ok e =>
    rw [step_of_plan hplan] at h
    cases e with
    | none | replace | release => cases h
    | load dst v => cases (missing_of_put h).1
    | store dst s => cases (missing_of_put h).1
  | error e =>
    rw [step, hplan] at h
    exact congrArg Outcome.error (Outcome.error.inj h)
  | fault c =>
    rw [step, hplan] at h
    cases h

structure Paired (n : Nat) (m m' : Machine) : Prop extends Twins m m' where
  sound : m.heap.Sound
  unlimited : m.config.limits = Limits.unlimited
  limited : m'.config.limits = ⟨some n⟩

/-- An instruction either does the same with the limit and does not exceed it, or it does and is refused. -/
theorem step_under_limit (hm : Paired n m m') (hi : ∀ r ∈ i.operands, r.number < m.registers.length) :
    ((∀ length, ¬ Exceeds n m i length) ∧
      (m'.step i).1 = (m.step i).1 ∧ Paired n (m.step i).2 (m'.step i).2) ∨
    ∃ length, Exceeds n m i length ∧
      m'.step i = (.error (.overLimit length (min n Size.capacity)), m') := by
  have hhigh : m.config.limits.ceiling = Size.capacity := by rw [hm.unlimited]; rfl
  have hlow : m'.config.limits.ceiling = min n Size.capacity := by rw [hm.limited]; rfl
  have hcurbed := curbed_plan hm.toTwins (by omega) hi
  rw [hhigh, hlow] at hcurbed
  unfold Exceeds
  rw [outcome_evaluate]
  generalize hplan : m.plan i = x at hcurbed
  generalize hplan' : m'.plan i = x' at hcurbed
  cases hcurbed with
  | same hsize hlimit =>
    left
    refine ⟨?_, ?_⟩
    · rintro length (⟨hok, hlength, hlt⟩ | ⟨max, herror⟩)
      · obtain ⟨e, he, hcommit⟩ := exists_plan_of_step_ok hok
        rw [producedLength?_eq_planned hm.sound he hcommit] at hlength
        have hle := hsize e length (hplan.symm.trans he) hlength
        omega
      · rw [plan_of_step_overLimit herror] at hplan
        exact hlimit length max hplan.symm
    · have hsame : (m'.step i).1 = (m.step i).1 ∧ Twins (m.step i).2 (m'.step i).2 := by
        rw [step, step, hplan, hplan']
        cases x with
        | ok e => exact hm.toTwins.commit e
        | error e => exact ⟨rfl, hm.toTwins⟩
        | fault c => exact ⟨rfl, hm.toTwins⟩
      refine ⟨hsame.1, hsame.2, sound_step m i hm.sound, ?_, ?_⟩
      · rw [config_step, hm.unlimited]
      · rw [config_step, hm.limited]
  | @cut e length hsize hlt hle =>
    -- Without the limit the effect is committed: the register it loads is an operand.
    right
    have hok : (m.commit e).1 = .ok () :=
      commit_eq_ok fun r hr => hi r ((plans_of_plan_eq_ok hplan).loaded_mem hr)
    refine ⟨length, .inl ⟨?_, ?_, by omega⟩, ?_⟩
    · rw [step_of_plan hplan, hok]
    · rw [producedLength?_eq_planned hm.sound hplan hok, hsize]
    · rw [step, hplan', Outcome.andThen_error]
  | @refused length max =>
    right
    refine ⟨length, .inr ⟨max, ?_⟩, ?_⟩
    · rw [step, hplan, Outcome.andThen_error]
    · rw [step, hplan', Outcome.andThen_error]

end Step

section Run

theorem neverExceeds_nil : NeverExceeds n [] m := by
  intro k i m₁ length hreach
  have hget := hreach.1
  rw [List.getElem?_nil] at hget
  cases hget

theorem neverExceeds_cons (hfirst : ∀ length, ¬ Exceeds n m i length)
    (hrest : ∀ m₁, m.step i = (.ok (), m₁) → i.returned? = none → NeverExceeds n p m₁) :
    NeverExceeds n (i :: p) m := by
  intro k j m₂ length hreach
  cases k with
  | zero =>
    obtain ⟨rfl, rfl⟩ := hreach.eq_first
    exact hfirst length
  | succ k =>
    obtain ⟨m₁, hstep, hnext, hlater⟩ := hreach.exists_later
    exact hrest m₁ hstep hnext k j m₂ length hlater

/-- A run does not get beyond an instruction that fails. -/
theorem neverExceeds_of_ne_ok (hfirst : ∀ length, ¬ Exceeds n m i length) (hfail : (m.step i).1 ≠ .ok ()) :
    NeverExceeds n (i :: p) m := by
  apply neverExceeds_cons hfirst
  intro m₁ hstep
  rw [hstep] at hfail
  exact absurd rfl hfail

/-- Behind an instruction that stays within the limit, the first to exceed it is the first of all. -/
theorem FirstToExceed.later {j : Instruction} {m₂ : Machine} (hfirst : ∀ length, ¬ Exceeds n m i length)
    (hstep : m.step i = (.ok (), m₁)) (hnext : i.returned? = none)
    (h : FirstToExceed n p m₁ k j m₂ length) : FirstToExceed n (i :: p) m (k + 1) j m₂ length := by
  refine ⟨h.reaches.later hstep hnext, h.exceeds, ?_⟩
  intro l j' m₃ length' hl hreach
  cases l with
  | zero =>
    obtain ⟨rfl, rfl⟩ := hreach.eq_first
    exact hfirst length'
  | succ l =>
    obtain ⟨m₁', hstep', _, hlater⟩ := hreach.exists_later
    rw [hstep] at hstep'
    cases hstep'
    exact h.first l j' m₃ length' (Nat.lt_of_succ_lt_succ hl) hlater

theorem Twins.takeOut (ht : Twins m m') (r : Register) :
    (takeOut r m').ending.1 = (takeOut r m).ending.1 ∧
      (takeOut r m').ending.2.heap = (takeOut r m).ending.2.heap := by
  rw [ending_takeOut, ending_takeOut, ht.value]
  cases m.value r <;> exact ⟨rfl, ht.heap⟩

/-- A run either does the same with the limit and never exceeds it, or it is refused at the first
instruction that does. -/
theorem runFrom_under_limit (programLength pc : Nat) (hm : Paired n m m')
    (hp : ∀ i ∈ p, ∀ r ∈ i.operands, r.number < m.registers.length) :
    (NeverExceeds n p m ∧
      (runFrom programLength pc p m').ending.1 = (runFrom programLength pc p m).ending.1 ∧
      (runFrom programLength pc p m').ending.2.heap = (runFrom programLength pc p m).ending.2.heap) ∨
    ∃ k i m₁ m₁' length, FirstToExceed n p m k i m₁ length ∧
      Reaches p m' k i m₁' ∧ m₁'.heap = m₁.heap ∧
      (m₁'.step i).1 = .error (.overLimit length (min n Size.capacity)) ∧
      (runFrom programLength pc p m').ending = (.error (.overLimit length (min n Size.capacity)), m₁') := by
  induction p generalizing pc m m' with
  | nil => exact .inl ⟨neverExceeds_nil, rfl, hm.heap⟩
  | cons i rest ih =>
    rw [ending_runFrom_cons, ending_runFrom_cons]
    have hi := hp i List.mem_cons_self
    have hregisters := length_registers_step m i
    rcases step_under_limit hm hi with ⟨hfirst, houtcome, hpaired⟩ | ⟨length, hexceeds, hstep⟩
    · -- The instruction does not exceed the limit, so both machines go on in step.
      rcases hstep : m.step i with ⟨outcome, m₁⟩
      rcases hstep' : m'.step i with ⟨outcome', m₁'⟩
      rw [hstep] at houtcome hpaired hregisters
      rw [hstep'] at houtcome hpaired
      obtain rfl : outcome' = outcome := houtcome
      cases outcome' with
      | error cause =>
        left
        refine ⟨neverExceeds_of_ne_ok hfirst ?_, rfl, hpaired.heap⟩
        rw [hstep]
        intro heq
        cases heq
      | fault cause =>
        left
        refine ⟨neverExceeds_of_ne_ok hfirst ?_, rfl, hpaired.heap⟩
        rw [hstep]
        intro heq
        cases heq
      | ok u =>
        rw [Outcome.andThen_ok, Outcome.andThen_ok]
        cases hnext : i.returned? with
        | some src =>
          left
          refine ⟨neverExceeds_cons hfirst ?_, hpaired.toTwins.takeOut src⟩
          intro m₂ _ hnone
          rw [hnext] at hnone
          cases hnone
        | none =>
          have hrest : ∀ j ∈ rest, ∀ r ∈ j.operands, r.number < m₁.registers.length := by
            intro j hj r hr
            rw [hregisters]
            exact hp j (List.mem_cons_of_mem i hj) r hr
          rcases ih (pc + 1) hpaired hrest with
            ⟨hnever, hsame⟩ | ⟨k, j, m₂, m₂', length, hexceed, hreach, hheap, hrefused, hend⟩
          · left
            refine ⟨neverExceeds_cons hfirst ?_, hsame⟩
            intro m₂ heq _
            rw [hstep] at heq
            cases heq
            exact hnever
          · right
            exact ⟨k + 1, j, m₂, m₂', length, hexceed.later hfirst hstep hnext,
              hreach.later hstep' hnext, hheap, hrefused, hend⟩
    · right
      refine ⟨0, i, m, m', length, ⟨.first i rest m, hexceeds, ?_⟩, .first i rest m', hm.heap, ?_, ?_⟩
      · intro l j m₂ length' hl
        exact absurd hl (Nat.not_lt_zero l)
      · rw [hstep]
      · rw [hstep, Outcome.andThen_error]

end Run

/-- The limit refuses exactly the programs that exceed it, where they do. On the same heap and with as
many registers, a program gives the same with a limit as without one, if without one no instruction makes
or refuses a longer sequence. If one does, the run with the limit comes to the first such instruction and
fails there with the length in question, and leaves the heap that the instruction found. -/
theorem run_under_limit (hm : m.Reachable) (hheap : m'.heap = m.heap)
    (hregisters : m'.registers.length = m.registers.length) (hlimits : m.config.limits = Limits.unlimited)
    (hlimits' : m'.config.limits = ⟨some n⟩)
    (hp : ∀ i ∈ p, ∀ r ∈ i.operands, r.number < m.registers.length) :
    (NeverExceeds n p (clearRegisters m) →
      (run p m').outcome = (run p m).outcome ∧ (run p m').state.heap = (run p m).state.heap) ∧
    (¬ NeverExceeds n p (clearRegisters m) →
      ∃ k i m₁ length, FirstToExceed n p (clearRegisters m) k i m₁ length ∧
        (∃ m₁', Reaches p (clearRegisters m') k i m₁' ∧
          (evaluate i m₁').outcome = .error (.overLimit length (min n Size.capacity))) ∧
        (run p m').outcome = .error (.overLimit length (min n Size.capacity)) ∧
        (run p m').state.heap = m₁.heap) := by
  have hcleared : (clearRegisters m').registers = (clearRegisters m).registers := by
    change m'.registers.map (fun _ => Value.nothing) = m.registers.map fun _ => .nothing
    rw [List.map_const', List.map_const', hregisters]
  have hpaired : Paired n (clearRegisters m) (clearRegisters m') :=
    ⟨⟨hcleared, hheap⟩, hm.sound, hlimits, hlimits'⟩
  have hexist : ∀ i ∈ p, ∀ r ∈ i.operands, r.number < (clearRegisters m).registers.length := by
    intro i hi r hr
    change r.number < (m.registers.map fun _ => Value.nothing).length
    rw [List.length_map]
    exact hp i hi r hr
  have houtcome (m : Machine) : (run p m).outcome = (runFrom p.length 0 p (clearRegisters m)).ending.1 :=
    congrArg Prod.fst (ending_run p m)
  have hstate (m : Machine) : (run p m).state = (runFrom p.length 0 p (clearRegisters m)).ending.2 :=
    congrArg Prod.snd (ending_run p m)
  simp only [houtcome, hstate]
  rcases runFrom_under_limit p.length 0 hpaired hexist with
    ⟨hnever, hsame⟩ | ⟨k, i, m₁, m₁', length, hfirst, hreach, hheap', hrefused, hend⟩
  · exact ⟨fun _ => hsame, fun hexceeds => absurd hnever hexceeds⟩
  · constructor
    · intro hnever
      exact absurd hfirst.exceeds (hnever k i m₁ length hfirst.reaches)
    · intro _
      refine ⟨k, i, m₁, length, hfirst, ⟨m₁', hreach, ?_⟩, ?_, ?_⟩
      · rw [outcome_evaluate, hrefused]
      · rw [hend]
      · rw [hend]
        exact hheap'

def limitedMachine : Machine := { priorMachine with config := { Config.default with limits := ⟨some 3⟩ } }

def doubling : Program :=
  [.newSeq ⟨0⟩ 2 .bounded, .loadInt ⟨1⟩ 1, .setSlice ⟨0⟩ ⟨1⟩ ⟨1⟩ ⟨0⟩, .ret ⟨0⟩]

def bridging : Program :=
  [.newSeq ⟨0⟩ 3 .cyclic, .newSeq ⟨1⟩ 2 .bounded, .loadInt ⟨2⟩ 2, .loadInt ⟨3⟩ 4,
    .setSlice ⟨0⟩ ⟨2⟩ ⟨3⟩ ⟨1⟩, .ret ⟨0⟩]

/-- The limit 3 refuses to double the sequence, and admits the assignment to a sequence of length 3. -/
theorem run_under_limit_doubling :
    priorMachine.Reachable ∧
    (run doubling priorMachine).outcome = .ok (.seq ⟨1⟩) ∧
    (∃ k i m₁ length, FirstToExceed 3 doubling (clearRegisters priorMachine) k i m₁ length ∧
      (run doubling limitedMachine).outcome = .error (.overLimit length (min 3 Size.capacity)) ∧
      (run doubling limitedMachine).state.heap = m₁.heap) ∧
    (run doubling limitedMachine).outcome = .error (.overLimit 4 3) ∧
    NeverExceeds 3 bridging (clearRegisters priorMachine) ∧
    (run bridging limitedMachine).outcome = (run bridging priorMachine).outcome ∧
    (run bridging limitedMachine).state.heap = (run bridging priorMachine).state.heap := by
  have hgrown : (run doubling priorMachine).outcome = .ok (.seq ⟨1⟩) := by decide
  have hrefused : (run doubling limitedMachine).outcome = .error (.overLimit 4 3) := by decide
  have hheap : limitedMachine.heap = priorMachine.heap := rfl
  have hlimits : limitedMachine.config.limits = ⟨some 3⟩ := rfl
  have hdoublingOperands :
      ∀ i ∈ doubling, ∀ r ∈ i.operands, r.number < priorMachine.registers.length := by decide
  have hbridgingOperands :
      ∀ i ∈ bridging, ∀ r ∈ i.operands, r.number < priorMachine.registers.length := by decide
  have hdoubling := run_under_limit reachable_priorMachine hheap rfl rfl hlimits hdoublingOperands
  have hbridging := run_under_limit reachable_priorMachine hheap rfl rfl hlimits hbridgingOperands
  have hexceeds : ¬ NeverExceeds 3 doubling (clearRegisters priorMachine) := by
    intro hnever
    have hsame := (hdoubling.1 hnever).1
    rw [hgrown, hrefused] at hsame
    cases hsame
  have hnever : NeverExceeds 3 bridging (clearRegisters priorMachine) := by
    -- Otherwise the run with the limit would fail, and it returns the sequence.
    by_contra hexceeds
    obtain ⟨k, i, m₁, length, _, _, hfailed, _⟩ := hbridging.2 hexceeds
    have hreturned : (run bridging limitedMachine).outcome = .ok (.seq ⟨1⟩) := by decide
    rw [hreturned] at hfailed
    cases hfailed
  obtain ⟨k, i, m₁, length, hfirst, _, hfailed, hleft⟩ := hdoubling.2 hexceeds
  exact ⟨reachable_priorMachine, hgrown, ⟨k, i, m₁, length, hfirst, hfailed, hleft⟩, hrefused, hnever,
    hbridging.1 hnever⟩

end SequenceMachine.Machine
