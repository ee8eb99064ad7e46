import SequenceMachine.Proofs.Machine.Cause
import SequenceMachine.Proofs.Machine.Isolation

namespace SequenceMachine

namespace Renaming

def ofRegisters (n : Nat) (f : Register → Register)
    (hf : ∀ r r', r.number < n → r'.number < n → f r = f r' → r = r') : Renaming :=
  ⟨fun r => r.number < n, f, fun slot => slot, hf, fun _ _ h => h⟩

def KeepsSlots (ρ : Renaming) : Prop := ∀ slot, ρ.slot slot = slot

namespace KeepsSlots

variable {ρ : Renaming} (hρ : ρ.KeepsSlots)
include hρ

theorem handle (id : Handle) : ρ.handle id = id := congrArg Handle.mk (hρ id.slot)

theorem value (v : Value) : ρ.value v = v := by
  cases v with
  | seq id => exact congrArg Value.seq (hρ.handle id)
  | _ => rfl

theorem sequence (s : Sequence Value) : ρ.sequence s = s := by
  have helements : s.elements.map ρ.value = s.elements := List.map_id'' hρ.value _
  unfold Renaming.sequence Sequence.map
  rw [helements]

theorem error {e : Machine.Error} (he : ∀ r, e ≠ .noRegister r) : ρ.error e = e := by
  cases e with
  | noRegister r => exact absurd rfl (he r)
  | heap cause =>
    cases cause with
    | released id => exact congrArg (fun id => Machine.Error.heap (.released id)) (hρ.handle id)
    | sequence cause => rfl
  | _ => rfl

/-- What an effect does to the heap names no register. -/
theorem heapAfter_effect (h : Heap) (e : Machine.Effect) : (ρ.effect e).heapAfter h = e.heapAfter h := by
  cases e with
  | none | load => rfl
  | store dst s => exact congrArg h.add (hρ.sequence s)
  | replace id s =>
    change h.replace (ρ.handle id) (ρ.sequence s) = h.replace id s
    rw [hρ.handle, hρ.sequence]
  | release id => exact congrArg h.remove (hρ.handle id)

/-- A sound heap mirrors itself under the names that it has. -/
theorem mirrors_self {h : Heap} (hs : h.Sound) : Heap.Mirrors ρ h h h := by
  refine ⟨hs, hs, ?_, fun n => (hρ _).symm, fun _ _ => rfl⟩
  intro id
  rw [hρ.handle]
  cases h.get? id with
  | none => rfl
  | some s => exact congrArg some (hρ.sequence s).symm

end KeepsSlots

end Renaming

namespace Machine

variable {m m' : Machine} {p : Program} {r : Register}

/-- The heap after an instruction is that of its effect, also where the register of the effect is missing.
-/
theorem heap_step (m : Machine) (i : Instruction) :
    (m.step i).2.heap = match m.plan i with
      | .ok e => e.heapAfter m.heap
      | _ => m.heap := by
  unfold step
  cases m.plan i with
  | ok e => exact heap_commit m e
  | error e => rfl
  | fault c => rfl

theorem heap_takeOut (r : Register) (m : Machine) : (takeOut r m).ending.2.heap = m.heap := by
  rw [ending_takeOut]
  cases m.value r <;> rfl

namespace Mirrors

variable {ρ : Renaming} {rest : Heap} (hρ : ρ.KeepsSlots)
include hρ

/-- An instruction has the same effect on the heap under other names of its registers. -/
theorem heap_step_eq (hm : Mirrors ρ rest m m') (hheap : m'.heap = m.heap) {i : Instruction}
    (hi : ∀ r ∈ i.operands, ρ.names r) : (m'.step (ρ.instruction i)).2.heap = (m.step i).2.heap := by
  rw [heap_step, heap_step, hm.plan hi, hheap]
  cases m.plan i with
  | ok e => exact hρ.heapAfter_effect m.heap e
  | error e => rfl
  | fault c => rfl

/-- Both runs leave one and the same heap, not only mirrored ones. -/
theorem heap_runFrom_eq (length pc : Nat) (hp : ∀ i ∈ p, ∀ r ∈ i.operands, ρ.names r)
    (hm : Mirrors ρ rest m m') (hheap : m'.heap = m.heap) :
    (Machine.runFrom length pc (p.map ρ.instruction) m').ending.2.heap =
      (Machine.runFrom length pc p m).ending.2.heap := by
  induction p generalizing pc m m' with
  | nil => exact hheap
  | cons i p ih =>
    have hi := hp i List.mem_cons_self
    have hstep := hm.step hi
    have hsame := hm.heap_step_eq hρ hheap hi
    rw [List.map_cons, ending_runFrom_cons, ending_runFrom_cons, hstep.outcome]
    cases (m.step i).1 with
    | ok u =>
      rw [Outcome.bimap_ok, Outcome.andThen_ok, Outcome.andThen_ok, ρ.returned?_instruction]
      cases i.returned? with
      | none => exact ih (pc + 1) (fun j hj => hp j (List.mem_cons_of_mem _ hj)) hstep.machine hsame
      | some src =>
        change (Machine.takeOut (ρ.register src) _).ending.2.heap = (Machine.takeOut src _).ending.2.heap
        rw [heap_takeOut, heap_takeOut]
        exact hsame
    | error e => exact hsame
    | fault c => exact hsame

end Mirrors

/-- A run does not lack a register if each operand of its program has one. -/
theorem run_ne_noRegister (hp : ∀ i ∈ p, ∀ r ∈ i.operands, r.number < m.registers.length) (r : Register) :
    (run p m).outcome ≠ .error (.noRegister r) := by
  intro hrun
  rcases exists_reaches_of_error hrun with heq | ⟨k, i, m₁, hreach, hfail⟩
  · cases heq
  · have hi := hp i (List.mem_of_getElem? hreach.1)
    have hlength : m₁.registers.length = m.registers.length := by
      refine hreach.2.preserves (I := fun m' => m'.registers.length = m.registers.length) ?_ ?_
      · intro m' j hm'
        rw [length_registers_step, hm']
      · exact List.length_map _
    rcases hfail with hstep | ⟨src, rfl, hvalue⟩
    · cases cause_of_step hstep with
      | noRegister hr hmissing =>
        have hlt := hi r hr
        omega
    · obtain ⟨heq, hmissing⟩ := value_eq_error_iff.mp hvalue
      have hlt := hi src List.mem_cons_self
      omega

/-- Names of registers carry no meaning. On the same heap and under the same limits, a program gives the
same with its registers renamed, on any machine that has the registers under their new names, and leaves
the same heap. Neither run fails for want of a register. -/
theorem run_rename_registers (hm : m.Reachable) (hm' : m'.Reachable) (hheap : m'.heap = m.heap)
    (hlimits : m'.config.limits = m.config.limits) {f : Register → Register}
    (hf : ∀ r r', r.number < m.config.registers → r'.number < m.config.registers → f r = f r' → r = r')
    (hrange : ∀ r, r.number < m.config.registers → (f r).number < m'.config.registers)
    (hp : ∀ i ∈ p, ∀ r ∈ i.operands, r.number < m.config.registers) :
    let q := p.map (Renaming.ofRegisters m.config.registers f hf).instruction
    (run q m').outcome = (run p m).outcome ∧ (run q m').state.heap = (run p m).state.heap ∧
      ∀ r, (run p m).outcome ≠ .error (.noRegister r) ∧ (run q m').outcome ≠ .error (.noRegister r) := by
  intro q
  let ρ := Renaming.ofRegisters m.config.registers f hf
  have hρ : ρ.KeepsSlots := fun _ => rfl
  have hmirrors : Mirrors ρ m.heap (clearRegisters m) (clearRegisters m') := by
    refine ⟨hlimits, ?_, ?_⟩
    · intro r hr
      have hold : r.number < m.config.registers := hr
      have hnew : (ρ.register r).number < m'.config.registers := hrange r hold
      rw [getElem?_clearRegisters hm, getElem?_clearRegisters hm', if_pos hold, if_pos hnew]
      rfl
    · change Heap.Mirrors ρ m.heap m.heap m'.heap
      rw [hheap]
      exact hρ.mirrors_self hm.sound
  have hpresent (r : Register) : (run p m).outcome ≠ .error (.noRegister r) := by
    refine run_ne_noRegister ?_ r
    rw [hm.length_registers]
    exact hp
  have houtcome : (run q m').outcome = (run p m).outcome := by
    have hagree : (run q m').outcome = (run p m).outcome.bimap ρ.error ρ.value :=
      (hmirrors.run (p := p) hp).outcome
    rw [hagree]
    cases hrun : (run p m).outcome with
    | ok v => exact congrArg Outcome.ok (hρ.value v)
    | error e =>
      refine congrArg Outcome.error (hρ.error ?_)
      intro r heq
      exact hpresent r (hrun.trans (congrArg Outcome.error heq))
    | fault c => rfl
  -- The mirrored heap alone would do only up to the names of slots, so the heaps are compared stepwise.
  refine ⟨houtcome, ?_, fun r => ⟨hpresent r, ?_⟩⟩
  · have hsame := hmirrors.heap_runFrom_eq hρ p.length 0 hp hheap
    have hlength : q.length = p.length := List.length_map _
    rw [← hlength, ← ending_run, hlength, ← ending_run] at hsame
    exact hsame
  · rw [houtcome]
    exact hpresent r

def widerMachine : Machine := { new ⟨20, true, Limits.unlimited⟩ with heap := priorMachine.heap }

def backwards (r : Register) : Register := ⟨19 - r.number⟩

theorem backwards_injective (r r' : Register) (hr : r.number < 16) (hr' : r'.number < 16)
    (heq : backwards r = backwards r') : r = r' := by
  have hnumber : 19 - r.number = 19 - r'.number := congrArg Register.number heq
  exact congrArg Register.mk (by omega)

def overwriting : Program :=
  [.loadInt ⟨15⟩ 1, .collect ⟨0⟩ [⟨15⟩, ⟨0⟩] .cyclic, .collect ⟨0⟩ [⟨0⟩, ⟨15⟩, ⟨0⟩] .bounded,
    .index ⟨15⟩ ⟨0⟩ ⟨15⟩, .setIndex ⟨0⟩ ⟨15⟩ ⟨0⟩, .ret ⟨0⟩]

/-- Under the other names the program gives the same handle and leaves the same sequences. -/
theorem run_rename_registers_backwards :
    priorMachine.Reachable ∧ widerMachine.Reachable ∧ widerMachine.heap = priorMachine.heap ∧
    widerMachine.config.limits = priorMachine.config.limits ∧
    (∀ r : Register, r.number < 16 → (backwards r).number < 20) ∧
    (∀ i ∈ overwriting, ∀ r ∈ i.operands, r.number < 16) ∧
    let q := overwriting.map (Renaming.ofRegisters 16 backwards backwards_injective).instruction
    (run q widerMachine).outcome = .ok (.seq ⟨3⟩) ∧
      (run q widerMachine).state.heap = (run overwriting priorMachine).state.heap ∧
      (run q widerMachine).state.heap.get? ⟨3⟩ = some ⟨[.seq ⟨1⟩, .seq ⟨3⟩, .seq ⟨1⟩], .bounded⟩ := by
  have hwider : widerMachine.Reachable := .exchange (.new _) reachable_priorMachine
  have hrange : ∀ r : Register, r.number < 16 → (backwards r).number < 20 := by
    intro r _
    change 19 - r.number < 20
    omega
  have hoperands : ∀ i ∈ overwriting, ∀ r ∈ i.operands, r.number < 16 := by decide
  have hrun : (run overwriting priorMachine).outcome = .ok (.seq ⟨3⟩) := by decide
  have hleft : (run overwriting priorMachine).state.heap.get? ⟨3⟩ =
      some ⟨[.seq ⟨1⟩, .seq ⟨3⟩, .seq ⟨1⟩], .bounded⟩ := by decide
  obtain ⟨houtcome, hheap, _⟩ := run_rename_registers reachable_priorMachine hwider rfl rfl
    backwards_injective hrange hoperands
  exact ⟨reachable_priorMachine, hwider, rfl, rfl, hrange, hoperands, houtcome.trans hrun, hheap,
    (congrArg (Heap.get? · ⟨3⟩) hheap).trans hleft⟩

end Machine

end SequenceMachine
