import SequenceMachine.Proofs.Machine.Mirror
import SequenceMachine.Proofs.Machine.Reachable

namespace SequenceMachine.Machine

variable {m : Machine} {id : Handle} {s : Sequence Value}

/-- The slots that a heap is going to take, as names for those that an empty heap takes. -/
def upcomingNames (hm : m.Reachable) : Renaming :=
  Renaming.ofSlots m.heap.upcoming hm.sound.upcoming_injective

/-- With cleared registers a reachable machine mirrors a new one on top of its own heap. -/
theorem mirrors_new (hm : m.Reachable) :
    Mirrors (upcomingNames hm) m.heap (clearRegisters (new m.config)) (clearRegisters m) := by
  refine ⟨rfl, ?_, Heap.Mirrors.of_sound hm.sound⟩
  intro r _
  change (clearRegisters m).registers[r.number]? = _
  rw [getElem?_clearRegisters hm, getElem?_clearRegisters (.new m.config)]
  change _ = Option.map _ (if r.number < m.config.registers then some Value.nothing else none)
  split <;> rfl

/-- A run on a reachable machine ends as on a new one, under the names of the slots that it takes. -/
theorem agree_run_new (hm : m.Reachable) (p : Program) :
    Agree (upcomingNames hm) m.heap (upcomingNames hm).value (run p (new m.config)).ending
      (run p m).ending := by
  have hrun := (mirrors_new hm).run (p := p) fun _ _ _ _ => trivial
  have hprogram : p.map (upcomingNames hm).instruction = p :=
    List.map_id'' (Renaming.instruction_ofSlots _) p
  rwa [hprogram] at hrun

/-- A run leaves each sequence that was live before under its handle and as it was, whatever the run's
outcome. -/
theorem run_keeps_live_sequences (hm : m.Reachable) (p : Program) (hid : m.heap.get? id = some s) :
    (run p m).state.heap.get? id = some s := by
  have hagree := agree_run_new hm p
  have hslot : ∀ n, m.heap.upcoming n ≠ id.slot := by
    intro n heq
    -- The run takes slots that are not live only.
    have hnone := hm.sound.get?_upcoming n
    rw [heq] at hnone
    rw [show (⟨id.slot⟩ : Handle) = id from rfl, hid] at hnone
    cases hnone
  have hkeep : (run p m).state.heap.get? id = m.heap.get? id := hagree.machine.heap.get?_rest id hslot
  rw [hkeep, hid]

def priorOperations : List Operation :=
  [.request (.allocate ⟨[.seq ⟨1⟩, .seq ⟨7⟩], .cyclic⟩), .request (.allocate ⟨[], .bounded⟩),
    .request (.allocate ⟨[.int 5], .bounded⟩), .request (.release ⟨1⟩)]

def priorMachine : Machine :=
  priorOperations.foldl (fun m op => (perform op m).state) (new Config.default)

theorem reachable_priorMachine : priorMachine.Reachable :=
  .perform _ (.perform _ (.perform _ (.perform _ (.new Config.default))))

def collecting : Program :=
  [.newSeq ⟨0⟩ 1 .bounded, .newSeq ⟨1⟩ 0 .cyclic, .push ⟨1⟩ ⟨0⟩, .release ⟨0⟩, .ret ⟨1⟩]

/-- The stale handle in slot 0 names the slot that the run takes first and releases. -/
theorem run_keeps_live_sequences_collecting :
    priorMachine.Reachable ∧
      priorMachine.heap.get? ⟨0⟩ = some ⟨[.seq ⟨1⟩, .seq ⟨7⟩], .cyclic⟩ ∧
      (run collecting priorMachine).outcome = .ok (.seq ⟨3⟩) ∧
      (run collecting priorMachine).state.heap.get? ⟨0⟩ = some ⟨[.seq ⟨1⟩, .seq ⟨7⟩], .cyclic⟩ := by
  have hid : priorMachine.heap.get? ⟨0⟩ = some ⟨[.seq ⟨1⟩, .seq ⟨7⟩], .cyclic⟩ := by decide
  have hkept := run_keeps_live_sequences reachable_priorMachine collecting hid
  exact ⟨reachable_priorMachine, hid, by decide, hkept⟩

/-- Up to an injective renaming of slots, with names that are not live in the heap before, a run has the
outcome of the run on a new machine, and the sequences it leaves besides those are the ones left on the
new machine. -/
theorem run_eq_run_new (hm : m.Reachable) (p : Program) :
    ∃ (f : Nat → Nat) (hf : Function.Injective f),
      (∀ slot, m.heap.get? ⟨f slot⟩ = none) ∧
      (run p m).outcome = (run p (new m.config)).outcome.bimap
        (Renaming.ofSlots f hf).error (Renaming.ofSlots f hf).value ∧
      ∀ id, m.heap.get? id = none → ∀ s, (run p m).state.heap.get? id = some s ↔
        ∃ id₀ s₀, (run p (new m.config)).state.heap.get? id₀ = some s₀ ∧
          id = (Renaming.ofSlots f hf).handle id₀ ∧ s = (Renaming.ofSlots f hf).sequence s₀ := by
  have hagree := agree_run_new hm p
  refine ⟨m.heap.upcoming, hm.sound.upcoming_injective, hm.sound.get?_upcoming, hagree.outcome, ?_⟩
  let ρ := upcomingNames hm
  have hheap : Heap.Mirrors ρ m.heap (run p (new m.config)).state.heap (run p m).state.heap :=
    hagree.machine.heap
  intro id hid s
  constructor
  · intro hs
    obtain ⟨n, hn⟩ := hm.sound.exists_upcoming hid
    have hname : id = ρ.handle ⟨n⟩ := congrArg Handle.mk hn.symm
    rw [hname, hheap.get?_handle, Option.map_eq_some_iff] at hs
    obtain ⟨s₀, hs₀, heq⟩ := hs
    exact ⟨⟨n⟩, s₀, hs₀, hname, heq.symm⟩
  · rintro ⟨id₀, s₀, hs₀, rfl, rfl⟩
    exact hheap.get?_handle_of_eq_some hs₀

/-- The second sequence stands in slot 1 on the new machine, and in slot 3 after the prior operations. -/
theorem run_eq_run_new_collecting :
    priorMachine.Reachable ∧
    (run collecting (new Config.default)).outcome = .ok (.seq ⟨1⟩) ∧
    (run collecting priorMachine).outcome = .ok (.seq ⟨3⟩) ∧
    ∃ (f : Nat → Nat) (hf : Function.Injective f),
      (∀ slot, priorMachine.heap.get? ⟨f slot⟩ = none) ∧
      (run collecting priorMachine).outcome = (run collecting (new Config.default)).outcome.bimap
        (Renaming.ofSlots f hf).error (Renaming.ofSlots f hf).value ∧
      ∀ id, priorMachine.heap.get? id = none → ∀ s,
        (run collecting priorMachine).state.heap.get? id = some s ↔
          ∃ id₀ s₀, (run collecting (new Config.default)).state.heap.get? id₀ = some s₀ ∧
            id = (Renaming.ofSlots f hf).handle id₀ ∧ s = (Renaming.ofSlots f hf).sequence s₀ :=
  ⟨reachable_priorMachine, by decide, by decide, run_eq_run_new reachable_priorMachine collecting⟩

end SequenceMachine.Machine
