import SequenceMachine.Proofs.Machine.Limit
import SequenceMachine.Proofs.Sequence.Faultless

namespace SequenceMachine

open Outcome (faultless_ok faultless_error faultless_ofOption faultless_of_eq_ok)

theorem Heap.LengthsWithin.of_slots {h : Heap} {max : Nat}
    (hslots : ∀ content ∈ h.slots, ∀ s ∈ content, s.length ≤ max) : h.LengthsWithin max := by
  intro id s hid
  exact hslots _ (List.mem_of_getElem? (get?_eq_some_iff.mp hid)) s rfl

namespace Machine

variable {m : Machine}

section Reads
variable (m)

theorem faultless_value (r : Register) : (m.value r).Faultless := faultless_ofOption _ _

theorem faultless_int (r : Register) : (m.int r).Faultless :=
  (faultless_value m r).bind fun _ _ => faultless_ofOption _ _

theorem faultless_handle (r : Register) : (m.handle r).Faultless :=
  (faultless_value m r).bind fun _ _ => faultless_ofOption _ _

theorem faultless_stored (id : Handle) : (m.stored id).Faultless :=
  (faultless_ofOption _ _).mapError _

theorem faultless_permit (length : Nat) : (m.permit length).Faultless := by
  unfold permit
  split
  · exact faultless_error _
  · exact faultless_ok _

end Reads

/-- What is permitted can be held. -/
theorem le_capacity_of_permit {length : Nat} (h : m.permit length = .ok ()) :
    length ≤ Size.capacity :=
  Nat.le_trans (le_ceiling_of_permit h) (Limits.ceiling_le_capacity _)

/-- An instruction is planned without a fault: each length is checked before the primitive that needs it
to be within the capacity. -/
theorem faultless_plan (hm : m.heap.LengthsWithin Size.capacity) (i : Instruction) :
    (m.plan i).Faultless := by
  have hstored {id : Handle} {s : Sequence Value} (hs : m.stored id = .ok s) :
      s.length ≤ Size.capacity := hm id s (stored_eq_ok_iff.mp hs)
  cases i with
  | loadInt dst val => exact faultless_ok _
  | loadStr dst val => exact faultless_ok _
  | newSeq dst length mode =>
    refine (faultless_permit m length).bind fun _ hpermit => ?_
    have hle : length ≤ Size.capacity := le_capacity_of_permit hpermit
    exact (Sequence.faultless_replicate hle _ mode).bind fun _ _ => faultless_ok _
  | collect dst srcs mode =>
    refine (faultless_permit m srcs.length).bind fun _ _ => ?_
    exact (Outcome.faultless_mapM (faultless_value m) srcs).bind fun _ _ => faultless_ok _
  | len dst seq =>
    refine (faultless_handle m seq).bind fun id _ => ?_
    exact (faultless_stored m id).bind fun _ _ => faultless_ok _
  | index dst seq index =>
    refine (faultless_int m index).bind fun k _ => ?_
    refine (faultless_handle m seq).bind fun id _ => ?_
    refine (faultless_stored m id).bind fun s _ => ?_
    exact ((Sequence.faultless_get s k).mapError _).bind fun _ _ => faultless_ok _
  | setIndex seq index src =>
    refine (faultless_int m index).bind fun k _ => ?_
    refine (faultless_value m src).bind fun v _ => ?_
    refine (faultless_handle m seq).bind fun id _ => ?_
    refine (faultless_stored m id).bind fun s _ => ?_
    exact ((Sequence.faultless_stateAfter_set s k v).mapError _).bind fun _ _ => faultless_ok _
  | slice dst seq left right =>
    refine (faultless_int m left).bind fun l _ => ?_
    refine (faultless_int m right).bind fun r _ => ?_
    refine (faultless_handle m seq).bind fun id _ => ?_
    refine (faultless_stored m id).bind fun s _ => ?_
    refine (faultless_permit m _).bind fun _ hpermit => ?_
    have hle : s.sliceLength l r ≤ Size.capacity := le_capacity_of_permit hpermit
    exact (Sequence.faultless_slice hle).bind fun _ _ => faultless_ok _
  | setSlice seq left right src =>
    refine (faultless_int m left).bind fun l _ => ?_
    refine (faultless_int m right).bind fun r _ => ?_
    refine (faultless_handle m seq).bind fun dst _ => ?_
    refine (faultless_handle m src).bind fun id _ => ?_
    refine (faultless_stored m id).bind fun source hsource => ?_
    refine (faultless_stored m dst).bind fun target htarget => ?_
    have hindex := Index.le_greatest_of_le_capacity (hstored htarget)
    have hsum := Size.add_le_max (hstored htarget) (hstored hsource)
    have hpredicted := Sequence.faultless_assignedLength hindex l r hsum
    refine (hpredicted.mapError _).bind fun length _ => ?_
    refine (faultless_permit m length).bind fun _ _ => ?_
    have hassign := Sequence.faultless_stateAfter_assign hindex l r source.elements
    exact (hassign.mapError _).bind fun _ _ => faultless_ok _
  | push seq src =>
    refine (faultless_value m src).bind fun v _ => ?_
    refine (faultless_handle m seq).bind fun id _ => ?_
    refine (faultless_stored m id).bind fun s hs => ?_
    have hsum : s.length + 1 ≤ Size.max := Size.add_le_max (hstored hs) (by decide)
    rw [Size.add_eq_ok hsum, Outcome.ok_bind]
    exact (faultless_permit m _).bind fun _ _ => faultless_ok _
  | release seq =>
    refine (faultless_handle m seq).bind fun id _ => ?_
    exact (faultless_stored m id).bind fun _ _ => faultless_ok _
  | ret src => exact faultless_ok _

theorem faultless_put (m : Machine) (r : Register) (v : Value) : (m.put r v).1.Faultless := by
  unfold put
  split
  · exact faultless_ok _
  · exact faultless_error _

theorem faultless_commit (m : Machine) (e : Effect) : (m.commit e).1.Faultless := by
  cases e with
  | load dst v => exact faultless_put m dst v
  | store dst s => exact faultless_put _ dst _
  | none | replace | release => exact faultless_ok _

/-- No instruction faults while the stored sequences are within the capacity. -/
theorem faultless_step (hm : m.heap.LengthsWithin Size.capacity) (i : Instruction) :
    (m.step i).1.Faultless :=
  (faultless_plan hm i).andThen fun e _ => faultless_commit m e

/-- An instruction leaves the stored sequences within the capacity. -/
theorem lengthsWithin_capacity_step (m : Machine) (i : Instruction)
    (hm : m.heap.LengthsWithin Size.capacity) : (m.step i).2.heap.LengthsWithin Size.capacity := by
  intro id s hid
  rcases length_of_get?_step m i hid with hle | ⟨t, ht, heq⟩
  · exact Nat.le_trans hle (Limits.ceiling_le_capacity _)
  · exact heq ▸ hm id t ht

theorem faultless_takeOut (r : Register) (m : Machine) : (takeOut r m).ending.1.Faultless := by
  rw [ending_takeOut]
  exact (faultless_value m r).andThen fun v _ => faultless_ok v

/-- A run does not fault either, as its instructions keep the sequences within the capacity. -/
theorem faultless_runFrom (length pc : Nat) (p : Program) (m : Machine)
    (hm : m.heap.LengthsWithin Size.capacity) : (runFrom length pc p m).ending.1.Faultless := by
  induction p generalizing pc m with
  | nil =>
    rw [ending_runFrom_nil]
    exact faultless_error _
  | cons i rest ih =>
    rw [ending_runFrom_cons]
    refine (faultless_step hm i).andThen fun _ _ => ?_
    cases i.returned? with
    | none => exact ih (pc + 1) _ (lengthsWithin_capacity_step m i hm)
    | some src => exact faultless_takeOut src _

structure Assignment where
  dst : Handle
  left : Int
  right : Int
  src : Handle

namespace Assignment

def perform (a : Assignment) : Eval Unit := onHeap (Heap.assign a.dst a.left a.right a.src)

def Live (a : Assignment) (h : Heap) : Prop :=
  (∃ s, h.get? a.dst = some s) ∧ ∃ s, h.get? a.src = some s

def prepare (seq left right src : Register) : Eval Assignment := do
  let left ← readInt left
  let right ← readInt right
  let dst ← readHandle seq
  let src ← readHandle src
  let source ← sequence src
  let target ← sequence dst
  let length ← ofSequence (target.assignedLength left right source.length)
  withinLimit length
  return ⟨dst, left, right, src⟩

variable {seq left right src : Register}

/-- An assignment is prepared, in steps that may fail, and then performed. -/
theorem evaluate_setSlice :
    evaluate (.setSlice seq left right src) = prepare seq left right src >>= perform := by
  simp only [evaluate, prepare, perform, bind_assoc, pure_bind]

structure Predicts (a : Assignment) (h : Heap) (target source : Sequence Value) (length : Nat) : Prop where
  target_live : h.get? a.dst = some target
  source_live : h.get? a.src = some source
  predicted : target.assignedLength a.left a.right source.length = .ok length

structure HeldBy (a : Assignment) (m : Machine) (seq left right src : Register) : Prop where
  dst : m.registers[seq.number]? = some (.seq a.dst)
  left : m.registers[left.number]? = some (.int a.left)
  right : m.registers[right.number]? = some (.int a.right)
  src : m.registers[src.number]? = some (.seq a.src)

/-- What is prepared is what the registers hold, it has a predicted length, and nothing is changed. -/
theorem held_of_prepare {m m' : Machine} {a : Assignment}
    (h : (prepare seq left right src m).ending = (.ok a, m')) :
    m' = m ∧ a.HeldBy m seq left right src ∧
      ∃ target source length, a.Predicts m.heap target source length := by
  obtain ⟨l, hl, h⟩ := Action.exists_of_ending_bind (ending_readInt left m) h
  obtain ⟨r, hr, h⟩ := Action.exists_of_ending_bind (ending_readInt right m) h
  obtain ⟨dst, hdst, h⟩ := Action.exists_of_ending_bind (ending_readHandle seq m) h
  obtain ⟨id, hid, h⟩ := Action.exists_of_ending_bind (ending_readHandle src m) h
  obtain ⟨source, hsource, h⟩ := Action.exists_of_ending_bind (ending_sequence id m) h
  obtain ⟨target, htarget, h⟩ := Action.exists_of_ending_bind (ending_sequence dst m) h
  obtain ⟨length, hlength, h⟩ := Action.exists_of_ending_bind (ending_ofOutcome _ m) h
  obtain ⟨_, -, h⟩ := Action.exists_of_ending_bind (ending_withinLimit length m) h
  cases h
  have hheld : HeldBy ⟨dst, l, r, id⟩ m seq left right src :=
    ⟨handle_eq_ok_iff.mp hdst, int_eq_ok_iff.mp hl, int_eq_ok_iff.mp hr, handle_eq_ok_iff.mp hid⟩
  refine ⟨rfl, hheld, target, source, length, ?_⟩
  exact ⟨stored_eq_ok_iff.mp htarget, stored_eq_ok_iff.mp hsource, Outcome.mapError_eq_ok_iff.mp hlength⟩

/-- Released and stray handles are refused before the heap is asked for two slots at once. -/
theorem live_of_prepare {m m' : Machine} {a : Assignment}
    (h : (prepare seq left right src m).ending = (.ok a, m')) : a.Live m'.heap := by
  obtain ⟨rfl, -, target, source, length, hpredicts⟩ := held_of_prepare h
  exact ⟨⟨target, hpredicts.target_live⟩, source, hpredicts.source_live⟩

end Assignment

/-- On a machine whose stored sequences are within the capacity each run ends in a value or in a reported
error, never in a fault. The stored sequences stay within the capacity, at each moment of the run and
after it, so none outgrows what can be held. An assignment between stored sequences is prepared before it
is performed, and at each moment of the run one that is prepared uses only live slots. -/
theorem run_answers_or_fails (m : Machine) (p : Program) (hm : m.heap.LengthsWithin Size.capacity) :
    ((∃ v, (run p m).outcome = .ok v) ∨ ∃ e, (run p m).outcome = .error e) ∧
    (run p m).state.heap.LengthsWithin Size.capacity ∧
    ∀ done m₁, Executes done (clearRegisters m) m₁ → m₁.heap.LengthsWithin Size.capacity ∧
      ∀ seq left right src,
        evaluate (.setSlice seq left right src) m₁ =
          (Assignment.prepare seq left right src >>= Assignment.perform) m₁ ∧
        ∀ a m₂, (Assignment.prepare seq left right src m₁).ending = (.ok a, m₂) → a.Live m₂.heap := by
  refine ⟨?_, ?_, ?_⟩
  · have hrun : (run p m).outcome = (runFrom p.length 0 p (clearRegisters m)).ending.1 :=
      congrArg Prod.fst (ending_run p m)
    rw [hrun]
    exact (faultless_runFrom p.length 0 p (clearRegisters m) hm).answers_or_fails
  · -- Clearing the registers and returning a value leave the heap alone.
    exact run_induction (I := fun m => m.heap.LengthsWithin Size.capacity)
      lengthsWithin_capacity_step (fun m r h => h) p hm
  · intro done m₁ hdone
    refine ⟨?_, fun seq left right src => ⟨?_, ?_⟩⟩
    · exact hdone.preserves (I := fun m => m.heap.LengthsWithin Size.capacity)
        lengthsWithin_capacity_step hm
    · rw [Assignment.evaluate_setSlice]
    · intro a m₂ hprepared
      exact Assignment.live_of_prepare hprepared

def strayHandles : Machine :=
  ⟨⟨4, false, Limits.unlimited⟩, List.replicate 4 (.seq ⟨9⟩),
    ⟨[some ⟨[.seq ⟨7⟩, .seq ⟨1⟩], .cyclic⟩, none], [1]⟩⟩

def widestSlice : Program :=
  [.newSeq ⟨0⟩ 1 .cyclic, .loadInt ⟨1⟩ Index.least, .loadInt ⟨2⟩ Index.greatest, .slice ⟨3⟩ ⟨0⟩ ⟨1⟩ ⟨2⟩]

theorem run_answers_or_fails_widestSlice :
    strayHandles.heap.LengthsWithin Size.capacity ∧
    (run widestSlice strayHandles).outcome = .error (.overLimit Size.max Size.capacity) ∧
    ((∃ v, (run widestSlice strayHandles).outcome = .ok v) ∨
      ∃ e, (run widestSlice strayHandles).outcome = .error e) ∧
    (run widestSlice strayHandles).state.heap.LengthsWithin Size.capacity := by
  have hm : strayHandles.heap.LengthsWithin Size.capacity :=
    Heap.LengthsWithin.of_slots (by decide)
  have hrun := run_answers_or_fails strayHandles widestSlice hm
  exact ⟨hm, by decide, hrun.1, hrun.2.1⟩

end Machine

end SequenceMachine
