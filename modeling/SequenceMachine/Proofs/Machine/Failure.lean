import SequenceMachine.Proofs.Machine.Execution

namespace SequenceMachine.Machine

variable {m : Machine} {i : Instruction} {e : Effect} {dst r : Register} {s : Sequence Value}

/-- The instruction makes the sequence `s`: its operands are valid and the length is within the limit.
But the register `dst`, in which it is to load the handle, does not exist. -/
structure Strands (m : Machine) (i : Instruction) (dst : Register) (s : Sequence Value) : Prop where
  plans : Plans m i (.store dst s)
  missing : m.registers.length ≤ dst.number

/-- Without a register for the handle the sequence is stored all the same. -/
theorem commit_store_of_le (h : m.registers.length ≤ dst.number) :
    m.commit (.store dst s) = (.error (.noRegister dst), { m with heap := m.heap.add s }) := by
  have hmissing : { m with heap := m.heap.add s }.registers.length ≤ dst.number := h
  exact put_of_le hmissing _

/-- A commit that fails keeps the state, or lacks the register for the handle of what it stored. -/
theorem commit_of_ne_ok (h : (m.commit e).1 ≠ .ok ()) :
    (m.commit e).2 = m ∨ ∃ dst s, e = .store dst s ∧ m.registers.length ≤ dst.number := by
  cases e with
  | none | replace | release => exact absurd rfl h
  | load dst v =>
    left
    rcases Nat.lt_or_ge dst.number m.registers.length with hlt | hge
    · -- The value was loaded.
      change (m.put dst v).1 ≠ .ok () at h
      rw [put_of_lt hlt] at h
      exact absurd rfl h
    · change (m.put dst v).2 = m
      rw [put_of_le hge]
  | store dst s =>
    right
    refine ⟨dst, s, rfl, ?_⟩
    apply Nat.le_of_not_lt
    intro hlt
    apply h
    have hexists : dst.number < { m with heap := m.heap.add s }.registers.length := hlt
    exact congrArg Prod.fst (put_of_lt hexists _)

/-- An instruction that fails keeps the state, or strands a sequence. -/
theorem step_of_ne_ok (h : (m.step i).1 ≠ .ok ()) :
    (m.step i).2 = m ∨ ∃ dst s, Strands m i dst s := by
  rcases step_cases m i with hkeep | ⟨e, hplan, hstep⟩
  · exact .inl hkeep
  · rw [hstep] at h ⊢
    rcases commit_of_ne_ok h with hkeep | ⟨dst, s, rfl, hmissing⟩
    · exact .inl hkeep
    · exact .inr ⟨dst, s, hplan, hmissing⟩

/-- A stranded sequence stays in the heap, and the missing register is what is reported. -/
theorem Strands.step (h : Strands m i dst s) :
    m.step i = (.error (.noRegister dst), { m with heap := m.heap.add s }) := by
  rw [step_of_plan (plan_eq_ok_of_plans h.plans)]
  exact commit_store_of_le h.missing

/-- A return that has no register to read changes nothing. -/
theorem state_takeOut_of_ne_ok (h : ∀ v, (takeOut r m).outcome ≠ .ok v) :
    (takeOut r m).state = m := by
  have houtcome := congrArg Prod.fst (ending_takeOut r m)
  have hstate := congrArg Prod.snd (ending_takeOut r m)
  change (takeOut r m).outcome = _ at houtcome
  change (takeOut r m).state = _ at hstate
  rw [houtcome] at h
  rw [hstate]
  cases hv : m.value r with
  | ok v =>
    rw [hv] at h
    exact absurd rfl (h v)
  | error cause => rfl
  | fault cause => rfl

/-- An instruction that fails leaves the machine as it was, heap and order of free slots included, unless
it makes a sequence and has no register for the handle. Then it fails for that register, the registers
are as before, and the heap has the one additional sequence in the slot that was next to be taken. A
register that cannot be returned changes nothing either. -/
theorem failed_evaluate_leaves (m : Machine) (i : Instruction) :
    let r := evaluate i m
    let next : Handle := ⟨m.heap.nextSlot⟩
    (r.outcome ≠ .ok () → r.state = m ∨ ∃ dst s, Strands m i dst s) ∧
    (∀ dst s, Strands m i dst s →
      r.outcome = .error (.noRegister dst) ∧
      r.state = { m with heap := (Heap.allocate s m.heap).state } ∧
      (m.heap.Sound →
        m.heap.get? next = none ∧ r.state.heap.get? next = some s ∧
        (∀ id, id ≠ next → r.state.heap.get? id = m.heap.get? id) ∧
        ∀ n, r.state.heap.upcoming n = m.heap.upcoming (n + 1))) ∧
    ∀ src, (∀ v, (takeOut src m).outcome ≠ .ok v) → (takeOut src m).state = m := by
  intro r next
  have houtcome : r.outcome = (m.step i).1 := outcome_evaluate i m
  have hstate : r.state = (m.step i).2 := state_evaluate i m
  refine ⟨?_, ?_, fun src h => state_takeOut_of_ne_ok h⟩
  · intro hfail
    rw [houtcome] at hfail
    rw [hstate]
    exact step_of_ne_ok hfail
  · intro dst s hstrands
    rw [houtcome, hstate, hstrands.step]
    refine ⟨rfl, rfl, ?_⟩
    intro hsound
    have hnext : m.heap.nextSlot = m.heap.upcoming 0 := m.heap.nextSlot_eq_upcoming
    refine ⟨?_, ?_, ?_, fun n => m.heap.upcoming_add s n⟩
    · change m.heap.get? ⟨m.heap.nextSlot⟩ = none
      rw [hnext]
      exact hsound.get?_upcoming 0
    · change (m.heap.add s).get? ⟨m.heap.nextSlot⟩ = some s
      rw [Heap.get?_add hsound, if_pos hnext]
    · intro id hne
      change (m.heap.add s).get? id = m.heap.get? id
      rw [Heap.get?_add hsound, if_neg]
      intro hslot
      exact hne (congrArg Handle.mk (hslot.trans hnext.symm))

def oneRegister : Machine :=
  ⟨⟨1, false, ⟨some 3⟩⟩, [.seq ⟨0⟩], ⟨[some ⟨[.int 1, .int 2], .cyclic⟩, none], [1]⟩⟩

theorem sound_oneRegister : oneRegister.heap.Sound := by
  constructor
  · exact List.nodup_singleton 1
  · intro slot
    match slot with
    | 0 | 1 | n + 2 => simp [oneRegister]

/-- A sequence that is collected for a register that does not exist stays in slot 1. A refused length and
an unknown register change nothing. -/
theorem failed_evaluate_leaves_collected :
    let i : Instruction := .collect ⟨4⟩ [⟨0⟩, ⟨0⟩] .cyclic
    let s : Sequence Value := ⟨[.seq ⟨0⟩, .seq ⟨0⟩], .cyclic⟩
    Strands oneRegister i ⟨4⟩ s ∧ oneRegister.heap.Sound ∧
    (evaluate i oneRegister).outcome = .error (.noRegister ⟨4⟩) ∧
    (evaluate i oneRegister).state.heap.get? ⟨1⟩ = some s ∧
    (evaluate (.newSeq ⟨4⟩ 4 .bounded) oneRegister).outcome ≠ .ok () ∧
    (evaluate (.newSeq ⟨4⟩ 4 .bounded) oneRegister).state = oneRegister ∧
    (∀ v, (takeOut ⟨4⟩ oneRegister).outcome ≠ .ok v) ∧
    (takeOut ⟨4⟩ oneRegister).state = oneRegister := by
  intro i s
  have hstrands : Strands oneRegister i ⟨4⟩ s := ⟨.collect ⟨4⟩ .cyclic (by decide) rfl, by decide⟩
  have hcollected := (failed_evaluate_leaves oneRegister i).2.1 ⟨4⟩ s hstrands
  have hrefused : (evaluate (.newSeq ⟨4⟩ 4 .bounded) oneRegister).outcome ≠ .ok () := by decide
  have hnone : ∀ v, (takeOut ⟨4⟩ oneRegister).outcome ≠ .ok v := by
    intro v h
    cases h
  have htaken := (failed_evaluate_leaves oneRegister i).2.2 ⟨4⟩ hnone
  refine ⟨hstrands, sound_oneRegister, hcollected.1, ?_, hrefused, ?_, hnone, htaken⟩
  · exact (hcollected.2.2 sound_oneRegister).2.1
  · rcases (failed_evaluate_leaves oneRegister _).1 hrefused with hkept | ⟨dst, t, hother⟩
    · exact hkept
    · -- A length above the limit is no sequence that is made.
      cases hother.plans with
      | newSeq dst mode hlength => exact absurd hlength (by decide)

end SequenceMachine.Machine
