import SequenceMachine.Proofs.Machine.Cause
import SequenceMachine.Proofs.Machine.Isolation
import SequenceMachine.Proofs.Machine.Ownership

/-!
Dangling handles. The handles that a run can come to hold are those that it allocated itself, whatever
the heap held before: registers are cleared first, and a run only reaches sequences of its own. So a
handle that dangles was allocated by the run, was released by it, and was not allocated again since.
-/

namespace SequenceMachine.Machine

variable {p : Program} {m m' : Machine} {i : Instruction} {k : Nat} {id : Handle}

def AllocatesAt (p : Program) (m : Machine) (k : Nat) (id : Handle) : Prop :=
  ∃ i m', Reaches p (clearRegisters m) k i m' ∧ Allocates m' i id

def ReleasesAt (p : Program) (m : Machine) (k : Nat) (id : Handle) : Prop :=
  ∃ seq m', Reaches p (clearRegisters m) k (.release seq) m' ∧ m'.handle seq = .ok id ∧
    (∃ s, m'.heap.get? id = some s) ∧ (evaluate (.release seq) m').state.heap.get? id = none

/-- Before instruction `k` the run allocated the handle, then released it, and did not allocate it
again. -/
def GivenUp (p : Program) (m : Machine) (k : Nat) (id : Handle) : Prop :=
  ∃ a r, a < r ∧ r < k ∧ AllocatesAt p m a id ∧ ReleasesAt p m r id ∧
    ∀ j, r < j → j < k → ¬ AllocatesAt p m j id

def Issued (p : Program) (m : Machine) (k : Nat) (id : Handle) : Prop := ∃ a, a < k ∧ AllocatesAt p m a id

/-- What holds when a run comes to its instruction `k` in the state `m'`: only handles that it issued
are within reach, and those that dangle were given up. -/
structure Accounted (p : Program) (m : Machine) (k : Nat) (m' : Machine) : Prop where
  sound : m'.heap.Sound
  closed : Closed (Issued p m k) m'
  givenUp : ∀ id, Issued p m k id → m'.heap.get? id = none → GivenUp p m k id

/-- Where a run comes to an instruction, allocating at that place is up to the instruction. -/
theorem allocatesAt_iff (h : Reaches p (clearRegisters m) k i m') :
    AllocatesAt p m k id ↔ Allocates m' i id := by
  constructor
  · rintro ⟨j, m'', hreach, halloc⟩
    obtain ⟨rfl, rfl⟩ := h.unique hreach
    exact halloc
  · intro halloc
    exact ⟨i, m', h, halloc⟩

/-- What is issued after an instruction was issued before it or is allocated by it. -/
theorem issued_succ_iff (h : Reaches p (clearRegisters m) k i m') :
    Issued p m (k + 1) id ↔ Issued p m k id ∨ Allocates m' i id := by
  rw [← allocatesAt_iff h]
  constructor
  · rintro ⟨a, ha, halloc⟩
    rcases Nat.lt_or_eq_of_le (Nat.le_of_lt_succ ha) with hlt | rfl
    · exact .inl ⟨a, hlt, halloc⟩
    · exact .inr halloc
  · rintro (⟨a, ha, halloc⟩ | halloc)
    · exact ⟨a, Nat.lt_succ_of_lt ha, halloc⟩
    · exact ⟨k, Nat.lt_succ_self k, halloc⟩

/-- At the start nothing is within reach, as the registers are cleared. -/
theorem Accounted.start (hm : m.heap.Sound) : Accounted p m 0 (clearRegisters m) := by
  constructor
  · exact hm
  · constructor
    · -- Cleared registers hold no handle at all.
      intro v hv id heq
      obtain ⟨w, _, rfl⟩ := List.mem_map.mp hv
      cases heq
    · rintro id s ⟨a, ha, _⟩
      cases ha
  · rintro id ⟨a, ha, _⟩
    cases ha

/-- A handle that an instruction makes dangle is released by it, and one that it brings within reach was
within reach or is allocated. -/
theorem Accounted.next (h : Accounted p m k m') (hreach : Reaches p (clearRegisters m) k i m') :
    Accounted p m (k + 1) (m'.step i).2 := by
  constructor
  · exact sound_step m' i h.sound
  · have hissued : Issued p m (k + 1) = fun id => Issued p m k id ∨ Allocates m' i id :=
      funext fun id => propext (issued_succ_iff hreach)
    rw [hissued]
    exact h.closed.step h.sound i
  · intro id hid hdead
    have hnew : ¬ Allocates m' i id := by
      rintro ⟨_, s, hlive⟩
      rw [state_evaluate, hdead] at hlive
      cases hlive
    have hold : Issued p m k id := ((issued_succ_iff hreach).mp hid).resolve_right hnew
    cases hbefore : m'.heap.get? id with
    | none =>
      obtain ⟨a, r, har, hrk, halloc, hrelease, hnone⟩ := h.givenUp id hold hbefore
      refine ⟨a, r, har, Nat.lt_succ_of_lt hrk, halloc, hrelease, ?_⟩
      intro j hrj hjk
      rcases Nat.lt_or_eq_of_le (Nat.le_of_lt_succ hjk) with hlt | rfl
      · exact hnone j hrj hlt
      · exact mt (allocatesAt_iff hreach).mp hnew
    | some s =>
      obtain ⟨a, hak, halloc⟩ := hold
      obtain ⟨seq, rfl, hheld⟩ := release_of_get?_step h.sound hbefore hdead
      refine ⟨a, k, hak, Nat.lt_succ_self k, halloc, ?_, ?_⟩
      · refine ⟨seq, m', hreach, hheld, ⟨s, hbefore⟩, ?_⟩
        rw [state_evaluate]
        exact hdead
      · intro j hkj hjk
        omega

/-- A run is accounted for at each instruction that it comes to. -/
theorem accounted_of_executes (hm : m.heap.Sound) (hk : k ≤ p.length)
    (h : Executes (p.take k) (clearRegisters m) m') : Accounted p m k m' := by
  induction k generalizing m' with
  | zero =>
    cases h
    exact .start hm
  | succ k ih =>
    obtain ⟨i, m₁, hreach, hstep⟩ := Reaches.exists_last hk h
    have hnext := (ih (Nat.le_of_succ_le hk) hreach.2).next hreach
    rw [hstep] at hnext
    exact hnext

theorem accounted_of_reaches (hm : m.heap.Sound) (h : Reaches p (clearRegisters m) k i m') :
    Accounted p m k m' :=
  accounted_of_executes hm (Nat.le_of_lt (List.getElem?_eq_some_iff.mp h.1).1) h.2

/-- A handle in a register is live, or was given up. -/
theorem Accounted.live_or_givenUp (h : Accounted p m k m') (hheld : .seq id ∈ m'.registers) :
    (∃ s, m'.heap.get? id = some s) ∨ GivenUp p m k id := by
  cases hid : m'.heap.get? id with
  | some s => exact .inl ⟨s, rfl⟩
  | none => exact .inr (h.givenUp id (h.closed.registers _ hheld id rfl) hid)

/-- A program without a release gives nothing up. -/
theorem not_givenUp (hp : ∀ seq, .release seq ∉ p) : ¬ GivenUp p m k id := by
  rintro ⟨a, r, _, _, _, ⟨seq, m', hreach, _⟩, _⟩
  exact hp seq (List.mem_of_getElem? hreach.1)

/-- A run that fails by a dangling handle does so at an instruction that it comes to. -/
theorem exists_reaches_of_released (h : (run p m).outcome = .error (.heap (.released id))) :
    ∃ k i m', Reaches p (clearRegisters m) k i m' ∧ (m'.step i).1 = .error (.heap (.released id)) := by
  rcases exists_reaches_of_error h with heq | ⟨k, i, m', hreach, hstep | ⟨src, _, hvalue⟩⟩
  · cases heq
  · exact ⟨k, i, m', hreach, hstep⟩
  · -- A value that cannot be returned has no register.
    cases (value_eq_error_iff.mp hvalue).1

/-- A value comes from the register of a return that the run comes to, which leaves the heap as it finds it.
-/
theorem exists_reaches_of_ok {v : Value} (h : (run p m).outcome = .ok v) :
    ∃ k src m', Reaches p (clearRegisters m) k (.ret src) m' ∧ m'.value src = .ok v ∧
      (run p m).state.heap = m'.heap := by
  have hend : (runFrom p.length 0 p (clearRegisters m)).ending = (.ok v, (run p m).state) := by
    rw [← ending_run, ← h]
    rfl
  rcases ending_runFrom_cases p.length 0 p (clearRegisters m) with ⟨m', _, heq⟩ | ⟨k, i, m', hreach, hends⟩
  · rw [heq] at hend
    cases hend
  · generalize (runFrom p.length 0 p (clearRegisters m)).ending = x at hend hends
    cases hends with
    | error hstep => cases hend
    | fault hstep => cases hend
    | ret src =>
      refine ⟨k, src, m', hreach, ?_⟩
      rw [ending_takeOut] at hend
      cases hsrc : m'.value src with
      | ok w =>
        rw [hsrc] at hend
        obtain ⟨hvalue, hstate⟩ := Prod.mk.inj hend
        refine ⟨hvalue, ?_⟩
        rw [← hstate]
      | error e =>
        rw [hsrc] at hend
        cases hend
      | fault c =>
        rw [hsrc] at hend
        cases hend

/-- A run fails by a dangling handle only at an instruction before which it allocated the handle, then
released it, and did not allocate it again. So a program without a release never fails in this way, and
a handle that it returns is live. -/
theorem dangling_only_after_release (hm : m.Reachable) (p : Program) :
    (∀ id, (run p m).outcome = .error (.heap (.released id)) →
      ∃ k i m', Reaches p (clearRegisters m) k i m' ∧
        (evaluate i m').outcome = .error (.heap (.released id)) ∧ GivenUp p m k id) ∧
    ((∀ seq, .release seq ∉ p) → ∀ id,
      (run p m).outcome ≠ .error (.heap (.released id)) ∧
      ((run p m).outcome = .ok (.seq id) → ∃ s, (run p m).state.heap.get? id = some s)) := by
  have hfails : ∀ id, (run p m).outcome = .error (.heap (.released id)) →
      ∃ k i m', Reaches p (clearRegisters m) k i m' ∧
        (evaluate i m').outcome = .error (.heap (.released id)) ∧ GivenUp p m k id := by
    intro id hrun
    obtain ⟨k, i, m', hreach, hstep⟩ := exists_reaches_of_released hrun
    refine ⟨k, i, m', hreach, (outcome_evaluate i m').trans hstep, ?_⟩
    -- The handle came from a register, and no live sequence is under it.
    cases cause_of_step hstep with
    | released hr hheld hdead =>
      have haccounted := accounted_of_reaches hm.sound hreach
      rcases haccounted.live_or_givenUp (mem_registers_of_handle hheld) with ⟨s, hlive⟩ | hgiven
      · rw [hdead] at hlive
        cases hlive
      · exact hgiven
  refine ⟨hfails, ?_⟩
  intro hp id
  constructor
  · intro hrun
    obtain ⟨k, i, m', _, _, hgiven⟩ := hfails id hrun
    exact not_givenUp hp hgiven
  · intro hrun
    obtain ⟨k, src, m', hreach, hvalue, hheap⟩ := exists_reaches_of_ok hrun
    have haccounted := accounted_of_reaches hm.sound hreach
    rcases haccounted.live_or_givenUp (mem_registers_of_value hvalue) with hlive | hgiven
    · rw [hheap]
      exact hlive
    · exact absurd hgiven (not_givenUp hp)

def releasingTwice : Program :=
  [.newSeq ⟨0⟩ 1 .bounded, .release ⟨0⟩, .newSeq ⟨1⟩ 0 .cyclic, .release ⟨0⟩, .len ⟨2⟩ ⟨1⟩]

def nesting : Program := [.newSeq ⟨0⟩ 1 .bounded, .collect ⟨1⟩ [⟨0⟩, ⟨0⟩] .cyclic, .ret ⟨1⟩]

/-- The length of the second sequence cannot be read; what is returned without a release is live. -/
theorem dangling_only_after_release_twice :
    priorMachine.Reachable ∧
    (run releasingTwice priorMachine).outcome = .error (.heap (.released ⟨1⟩)) ∧
    (∃ k i m', Reaches releasingTwice (clearRegisters priorMachine) k i m' ∧
      (evaluate i m').outcome = .error (.heap (.released ⟨1⟩)) ∧
      GivenUp releasingTwice priorMachine k ⟨1⟩) ∧
    (∀ seq, .release seq ∉ nesting) ∧
    (run nesting priorMachine).outcome = .ok (.seq ⟨3⟩) ∧
    ∃ s, (run nesting priorMachine).state.heap.get? ⟨3⟩ = some s := by
  have hfailed : (run releasingTwice priorMachine).outcome = .error (.heap (.released ⟨1⟩)) := by decide
  have hreturned : (run nesting priorMachine).outcome = .ok (.seq ⟨3⟩) := by decide
  have hkept : ∀ seq, .release seq ∉ nesting := by
    intro seq
    simp [nesting]
  have hgiven := (dangling_only_after_release reachable_priorMachine releasingTwice).1 ⟨1⟩ hfailed
  have hlive := ((dangling_only_after_release reachable_priorMachine nesting).2 hkept ⟨3⟩).2 hreturned
  exact ⟨reachable_priorMachine, hfailed, hgiven, hkept, hreturned, hlive⟩

end SequenceMachine.Machine
