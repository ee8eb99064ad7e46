import SequenceMachine.Proofs.Machine.Execution

namespace SequenceMachine.Machine

variable {p q : Program} {m m₁ m' m'' : Machine} {i j : Instruction} {k l : Nat}

/-- A program in two parts is carried out one part after the other. -/
theorem executes_append_iff :
    Executes (p ++ q) m m'' ↔ ∃ m', Executes p m m' ∧ Executes q m' m'' := by
  constructor
  · intro h
    induction p generalizing m with
    | nil => exact ⟨m, .nil m, h⟩
    | cons i p ih =>
      cases h with
      | cons hstep hnext hrest =>
        obtain ⟨m', hp, hq⟩ := ih hrest
        exact ⟨m', .cons hstep hnext hp, hq⟩
  · rintro ⟨m', hp, hq⟩
    induction hp with
    | nil m => exact hq
    | cons hstep hnext _ ih => exact .cons hstep hnext (ih hq)

/-- The machine is deterministic. -/
theorem Executes.unique (h : Executes p m m') (h' : Executes p m m'') : m' = m'' := by
  induction h with
  | nil m =>
    cases h'
    rfl
  | cons hstep _ _ ih =>
    cases h' with
    | cons hstep' _ hrest' =>
      -- Both go on from the state that the first instruction leaves.
      rw [hstep] at hstep'
      cases hstep'
      exact ih hrest'

/-- Carrying out `p` from `m` comes to its instruction number `k`, which is `i`, in the state `m'`. -/
def Reaches (p : Program) (m : Machine) (k : Nat) (i : Instruction) (m' : Machine) : Prop :=
  p[k]? = some i ∧ Executes (p.take k) m m'

namespace Reaches

theorem first (i : Instruction) (p : Program) (m : Machine) : Reaches (i :: p) m 0 i m := ⟨rfl, .nil m⟩

theorem later (hstep : m.step i = (.ok (), m₁)) (hnext : i.returned? = none)
    (h : Reaches p m₁ k j m') : Reaches (i :: p) m (k + 1) j m' := by
  refine ⟨h.1, ?_⟩
  rw [List.take_succ_cons]
  exact .cons hstep hnext h.2

theorem eq_first (h : Reaches (i :: p) m 0 j m') : j = i ∧ m' = m := by
  obtain ⟨hget, hexec⟩ := h
  rw [List.getElem?_cons_zero] at hget
  cases hexec
  exact ⟨(Option.some.inj hget).symm, rfl⟩

/-- To come to a later instruction, the first one has to succeed and not to return. -/
theorem exists_later (h : Reaches (i :: p) m (k + 1) j m') :
    ∃ m₁, m.step i = (.ok (), m₁) ∧ i.returned? = none ∧ Reaches p m₁ k j m' := by
  obtain ⟨hget, hexec⟩ := h
  rw [List.take_succ_cons] at hexec
  cases hexec with
  | cons hstep hnext hrest => exact ⟨_, hstep, hnext, hget, hrest⟩

/-- A run comes to each place of its program at most once, in one state. -/
theorem unique (h : Reaches p m k i m') (h' : Reaches p m k j m'') : i = j ∧ m' = m'' :=
  ⟨Option.some.inj (h.1.symm.trans h'.1), h.2.unique h'.2⟩

/-- A run comes to instruction `k + 1` by carrying out instruction `k`. -/
theorem exists_last (hk : k < p.length) (h : Executes (p.take (k + 1)) m m'') :
    ∃ i m', Reaches p m k i m' ∧ m'.step i = (.ok (), m'') := by
  rw [List.take_succ_eq_append_getElem hk, executes_append_iff] at h
  obtain ⟨m', hbefore, hlast⟩ := h
  cases hlast with
  | cons hstep _ hnil =>
    cases hnil
    exact ⟨p[k], m', ⟨List.getElem?_eq_getElem hk, hbefore⟩, hstep⟩

end Reaches

inductive EndsBy (m : Machine) : Instruction → Outcome Error Value × Machine → Prop
  | error {i : Instruction} {e : Error} {m' : Machine} (hstep : m.step i = (.error e, m')) :
    EndsBy m i (.error e, m')
  | fault {i : Instruction} {c : Fault} {m' : Machine} (hstep : m.step i = (.fault c, m')) :
    EndsBy m i (.fault c, m')
  | ret (src : Register) : EndsBy m (.ret src) (takeOut src m).ending

/-- A run either carries out the whole program, or is ended by an instruction that it comes to. -/
theorem ending_runFrom_cases (length pc : Nat) (p : Program) (m : Machine) :
    (∃ m', Executes p m m' ∧
      (runFrom length pc p m).ending = (.error (.endOfProgram (pc + p.length) length), m')) ∨
    ∃ k i m', Reaches p m k i m' ∧ EndsBy m' i (runFrom length pc p m).ending := by
  induction p generalizing pc m with
  | nil => exact .inl ⟨m, .nil m, ending_runFrom_nil length pc m⟩
  | cons i rest ih =>
    rw [ending_runFrom_cons]
    cases hstep : m.step i with
    | mk outcome m₁ =>
      cases outcome with
      | error e => exact .inr ⟨0, i, m, .first i rest m, .error hstep⟩
      | fault c => exact .inr ⟨0, i, m, .first i rest m, .fault hstep⟩
      | ok u =>
        rw [Outcome.andThen_ok]
        cases hnext : i.returned? with
        | none =>
          dsimp only
          rcases ih (pc + 1) m₁ with ⟨m', hrest, hend⟩ | ⟨k, j, m', hreach, hend⟩
          · refine .inl ⟨m', .cons hstep hnext hrest, ?_⟩
            rw [hend, List.length_cons, Nat.add_right_comm, Nat.add_assoc]
          · exact .inr ⟨k + 1, j, m', hreach.later hstep hnext, hend⟩
        | some src =>
          cases i with
          | ret r =>
            cases hnext
            cases hstep
            exact .inr ⟨0, .ret src, m, .first _ rest m, .ret src⟩
          | _ => cases hnext

theorem value_eq_error_iff {r : Register} {e : Error} :
    m.value r = .error e ↔ e = .noRegister r ∧ m.registers.length ≤ r.number := by
  unfold value
  rw [← List.getElem?_eq_none_iff]
  cases m.registers[r.number]? <;> simp [eq_comm]

/-- An instruction that ends a run in an error fails itself, or returns a register that does not exist. -/
theorem EndsBy.error_cases {e : Error} (h : EndsBy m i (.error e, m')) :
    (m.step i).1 = .error e ∨ ∃ src, i = .ret src ∧ m.value src = .error e := by
  generalize hx : (Outcome.error e, m') = x at h
  cases h with
  | error hstep =>
    obtain ⟨heq, _⟩ := Prod.mk.inj hx
    obtain rfl := Outcome.error.inj heq
    exact .inl (congrArg Prod.fst hstep)
  | fault hstep => cases hx
  | ret src =>
    right
    refine ⟨src, rfl, ?_⟩
    rw [ending_takeOut] at hx
    cases hv : m.value src with
    | ok v =>
      rw [hv] at hx
      cases hx
    | error e' =>
      rw [hv] at hx
      obtain ⟨heq, _⟩ := Prod.mk.inj hx
      exact congrArg Outcome.error (Outcome.error.inj heq).symm
    | fault c =>
      rw [hv] at hx
      cases hx

/-- A run that fails has carried out the whole program, or came to an instruction that failed or that
returns a register that does not exist. -/
theorem exists_reaches_of_error {e : Error} (h : (run p m).outcome = .error e) :
    e = .endOfProgram p.length p.length ∨
      ∃ k i m', Reaches p (clearRegisters m) k i m' ∧
        ((m'.step i).1 = .error e ∨ ∃ src, i = .ret src ∧ m'.value src = .error e) := by
  have hend : (runFrom p.length 0 p (clearRegisters m)).ending = (.error e, (run p m).state) := by
    rw [← ending_run, ← h]
    rfl
  rcases ending_runFrom_cases p.length 0 p (clearRegisters m) with ⟨m', _, heq⟩ | ⟨k, i, m', hreach, hends⟩
  · left
    rw [heq, Nat.zero_add] at hend
    exact (Outcome.error.inj (Prod.mk.inj hend).1).symm
  · rw [hend] at hends
    exact .inr ⟨k, i, m', hreach, hends.error_cases⟩

end SequenceMachine.Machine
