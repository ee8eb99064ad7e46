import SequenceMachine.Machine.Operation
import SequenceMachine.Proofs.Machine.Execution

namespace SequenceMachine

namespace Heap

variable {h : Heap}

theorem keeps_sound_allocate (s : Sequence Value) : Action.Keeps Sound (allocate s) := by
  intro h hs
  rw [allocate_apply]
  exact hs.add s

theorem keeps_sound_release (id : Handle) : Action.Keeps Sound (release id) := by
  intro h hs
  cases hid : h.get? id with
  | none =>
    rw [release_apply_of_eq_none hid]
    exact hs
  | some s =>
    rw [release_apply_of_eq_some hid]
    exact hs.remove hid

theorem keeps_sound_edit {β : Type} (id : Handle) (x : Sequence.Edit Value β) :
    Action.Keeps Sound (edit id x) := by
  intro h hs
  change ((edit id x h).ending.2).Sound
  cases hid : h.get? id with
  | none =>
    rw [ending_edit_of_eq_none hid]
    exact hs
  | some s =>
    rw [ending_edit_of_eq_some hid]
    exact hs.replace hid _

theorem keeps_sound_assign (dst : Handle) (left right : Int) (src : Handle) :
    Action.Keeps Sound (assign dst left right src) := by
  unfold assign
  split
  · exact keeps_sound_edit dst _
  · -- The reads before the edit leave the heap alone.
    refine Action.keeps_state.bind fun h => ?_
    refine (Action.keeps_ofOutcome _).bind fun _ => ?_
    refine (Action.keeps_ofOutcome _).bind fun found => ?_
    refine (Action.keeps_ofOutcome _).bind fun pair => ?_
    exact keeps_sound_edit dst _

/-- Every request keeps a heap sound, also one that is refused. -/
theorem keeps_sound_perform (r : Request) : Action.Keeps Sound (perform r) := by
  cases r with
  | allocate s => exact (keeps_sound_allocate s).bind fun _ => Action.keeps_pure _
  | get id =>
    refine Action.keeps_state.bind fun h => ?_
    exact (Action.keeps_ofOutcome _).bind fun _ => Action.keeps_pure _
  | release id => exact (keeps_sound_release id).bind fun _ => Action.keeps_pure _
  | assign dst left right src =>
    exact (keeps_sound_assign dst left right src).bind fun _ => Action.keeps_pure _
  | call id call => exact (keeps_sound_edit id _).bind fun _ => Action.keeps_pure _
  | count => exact Action.keeps_state.bind fun _ => Action.keeps_pure _
  | isEmpty => exact Action.keeps_state.bind fun _ => Action.keeps_pure _

end Heap

namespace Machine

variable {m m' : Machine}

/-- No instruction makes a heap unsound. -/
theorem sound_step (m : Machine) (i : Instruction) (hs : m.heap.Sound) : (m.step i).2.heap.Sound := by
  rcases step_cases m i with hkeep | ⟨e, hplan, hstep⟩
  · rwa [hkeep]
  · rw [hstep, heap_commit]
    cases e with
    | none => exact hs
    | load dst v => exact hs
    | store dst s => exact hs.add s
    | replace id t =>
      obtain ⟨s, hid⟩ := hplan.live rfl
      exact hs.replace hid t
    | release id =>
      obtain ⟨s, hid⟩ := hplan.live rfl
      exact hs.remove hid

theorem sound_run (p : Program) (hs : m.heap.Sound) : (run p m).state.heap.Sound :=
  run_induction (I := fun m => m.heap.Sound) sound_step (fun _ _ h => h) p hs

/-- A run changes neither the settings nor the number of registers. -/
theorem config_and_length_run (p : Program) (m : Machine) :
    (run p m).state.config = m.config ∧ (run p m).state.registers.length = m.registers.length := by
  let I : Machine → Prop := fun m' =>
    m'.config = m.config ∧ m'.registers.length = m.registers.length
  have hstep : ∀ m' i, I m' → I (m'.step i).2 := by
    intro m' i hm
    exact ⟨(config_step m' i).trans hm.1, (length_registers_step m' i).trans hm.2⟩
  have htake : ∀ m' r, I m' → I { m' with registers := m'.registers.set r .nothing } := by
    intro m' r hm
    exact ⟨hm.1, List.length_set.trans hm.2⟩
  have hclear : I (clearRegisters m) := ⟨rfl, List.length_map _⟩
  exact run_induction hstep htake p hclear

inductive Reachable : Machine → Prop
  | new (config : Config) : Reachable (Machine.new config)
  | perform {m : Machine} (op : Operation) (hm : Reachable m) : Reachable (perform op m).state
  /-- Writing any sequence in the place of a live one. -/
  | overwrite {m : Machine} {id : Handle} {s : Sequence Value} (t : Sequence Value) (hm : Reachable m)
    (hid : m.heap.get? id = some s) : Reachable { m with heap := m.heap.replace id t }
  /-- Taking over the heap of another machine. -/
  | exchange {m m' : Machine} (hm : Reachable m) (hm' : Reachable m') :
    Reachable { m with heap := m'.heap }

/-- What runs and requests keep is kept by each use of a machine. -/
theorem keeps_perform {I : Machine → Prop} (hrun : ∀ p, Action.Keeps I (run p))
    (hrequest : ∀ r, Action.Keeps I (onHeap (Heap.perform r))) (op : Operation) :
    Action.Keeps I (perform op) := by
  cases op with
  | run p => exact (hrun p).bind fun _ => Action.keeps_pure _
  | request r => exact (hrequest r).bind fun _ => Action.keeps_pure _

/-- The heap of a reachable machine is sound. -/
theorem Reachable.sound (hm : m.Reachable) : m.heap.Sound := by
  induction hm with
  | new config => exact Heap.Sound.empty
  | perform op hm ih =>
    have hrun : ∀ p, Action.Keeps (fun m : Machine => m.heap.Sound) (run p) :=
      fun p _ => sound_run p
    have hrequest : ∀ r, Action.Keeps (fun m : Machine => m.heap.Sound) (onHeap (Heap.perform r)) :=
      fun r m hm => Heap.keeps_sound_perform r m.heap hm
    exact keeps_perform hrun hrequest op _ ih
  | overwrite t hm hid ih => exact ih.replace hid t
  | exchange hm hm' _ ih' => exact ih'

theorem Reachable.length_registers (hm : m.Reachable) : m.registers.length = m.config.registers := by
  let I : Machine → Prop := fun m => m.registers.length = m.config.registers
  induction hm with
  | new config => exact List.length_replicate
  | perform op hm ih =>
    have hrun : ∀ p, Action.Keeps I (run p) := by
      intro p m hm
      obtain ⟨hconfig, hlength⟩ := config_and_length_run p m
      change (run p m).state.registers.length = (run p m).state.config.registers
      rw [hconfig, hlength]
      exact hm
    have hrequest : ∀ r, Action.Keeps I (onHeap (Heap.perform r)) := fun _ _ hm => hm
    exact keeps_perform hrun hrequest op _ ih
  | overwrite t hm hid ih => exact ih
  | exchange hm hm' ih _ => exact ih

/-- At the start of a run each register exists that the settings allow, with nothing in it. -/
theorem getElem?_clearRegisters (hm : m.Reachable) (r : Register) :
    (clearRegisters m).registers[r.number]? =
      if r.number < m.config.registers then some .nothing else none := by
  have hcleared : (clearRegisters m).registers = List.replicate m.config.registers .nothing := by
    change m.registers.map (fun _ => Value.nothing) = _
    rw [List.map_const', hm.length_registers]
  rw [hcleared, List.getElem?_replicate]

end Machine

end SequenceMachine
