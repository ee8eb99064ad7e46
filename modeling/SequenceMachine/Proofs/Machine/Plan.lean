import SequenceMachine.Machine.Operation
import SequenceMachine.Proofs.Heap.Edit

/-!
Plans: what an instruction is going to do, found from the state without changing it. A plan has at most
one effect, so carrying out an instruction is finding its plan and then committing the effect. The main
statement is `ending_evaluate`; what an instruction changes, and when, is read off its plan.
-/

namespace SequenceMachine.Machine

inductive Effect where
  | none
  | load (dst : Register) (value : Value)
  /-- Stores a sequence and loads its handle. -/
  | store (dst : Register) (s : Sequence Value)
  | replace (id : Handle) (s : Sequence Value)
  | release (id : Handle)

def value (m : Machine) (r : Register) : Outcome Error Value :=
  Outcome.ofOption (.noRegister r) m.registers[r.number]?

def int (m : Machine) (r : Register) : Outcome Error Int := do
  let v ← m.value r
  Outcome.ofOption (.kindMismatch .int v.kind) v.asInt?

def handle (m : Machine) (r : Register) : Outcome Error Handle := do
  let v ← m.value r
  Outcome.ofOption (.kindMismatch .sequence v.kind) v.asSeq?

def stored (m : Machine) (id : Handle) : Outcome Error (Sequence Value) :=
  (m.heap.lookup id).mapError .heap

def permit (m : Machine) (length : Nat) : Outcome Error Unit :=
  if m.config.limits.ceiling < length then .error (.overLimit length m.config.limits.ceiling)
  else .ok ()

def passOn {α : Type} (x : Outcome Sequence.Error α) : Outcome Error α :=
  x.mapError fun cause => .heap (.sequence cause)

def plan (m : Machine) : Instruction → Outcome Error Effect
  | .loadInt dst val => return .load dst (.int val)
  | .loadStr dst val => return .load dst (.str val)
  | .newSeq dst len mode => do
    m.permit len
    return .store dst (← Sequence.replicate len .nothing mode)
  | .collect dst srcs mode => do
    m.permit srcs.length
    return .store dst ⟨← srcs.mapM m.value, mode⟩
  | .len dst seq => do
    let s ← m.stored (← m.handle seq)
    return .load dst (.int (Index.ofLength s.length))
  | .index dst seq index => do
    let index ← m.int index
    let s ← m.stored (← m.handle seq)
    return .load dst (← passOn (s.get index))
  | .setIndex seq index src => do
    let index ← m.int index
    let value ← m.value src
    let id ← m.handle seq
    let s ← m.stored id
    return .replace id (← passOn (Action.stateAfter (Sequence.set index value) s))
  | .slice dst seq left right => do
    let left ← m.int left
    let right ← m.int right
    let s ← m.stored (← m.handle seq)
    m.permit (s.sliceLength left right)
    return .store dst (← s.slice left right)
  | .setSlice seq left right src => do
    let left ← m.int left
    let right ← m.int right
    let dst ← m.handle seq
    let src ← m.handle src
    let source ← m.stored src
    let target ← m.stored dst
    m.permit (← passOn (target.assignedLength left right source.length))
    return .replace dst
      (← passOn (Action.stateAfter (Sequence.assign left right source.elements) target))
  | .push seq src => do
    let value ← m.value src
    let id ← m.handle seq
    let s ← m.stored id
    m.permit (← Size.add s.length 1)
    return .replace id (s.push value)
  | .release seq => do
    let id ← m.handle seq
    let _ ← m.stored id
    return .release id
  | .ret _ => return .none

def put (m : Machine) (r : Register) (v : Value) : Outcome Error Unit × Machine :=
  if r.number < m.registers.length then
    (.ok (), { m with registers := m.registers.set r.number v })
  else (.error (.noRegister r), m)

/-- Carries out an effect. A sequence is stored before its handle is loaded, and stays where there is no
register for the handle. -/
def commit (m : Machine) : Effect → Outcome Error Unit × Machine
  | .none => (.ok (), m)
  | .load dst v => m.put dst v
  | .store dst s => { m with heap := m.heap.add s }.put dst (.seq ⟨m.heap.upcoming 0⟩)
  | .replace id s => (.ok (), { m with heap := m.heap.replace id s })
  | .release id => (.ok (), { m with heap := m.heap.remove id })

theorem stored_eq_ok_iff {m : Machine} {id : Handle} {s : Sequence Value} :
    m.stored id = .ok s ↔ m.heap.get? id = some s := by
  unfold stored Heap.lookup
  cases m.heap.get? id <;> simp [Outcome.mapError]

def step (m : Machine) (i : Instruction) : Outcome Error Unit × Machine :=
  (m.plan i).andThen m m.commit

section Reads

theorem ending_read (r : Register) (m : Machine) : (read r m).ending = (m.value r, m) := by
  simp [read, Action.bind_apply, value]

theorem ending_readInt (r : Register) (m : Machine) : (readInt r m).ending = (m.int r, m) := by
  unfold readInt int
  rw [Action.ending_bind_of_ending (ending_read r m)]
  cases m.value r <;> rfl

theorem ending_readHandle (r : Register) (m : Machine) : (readHandle r m).ending = (m.handle r, m) := by
  unfold readHandle handle
  rw [Action.ending_bind_of_ending (ending_read r m)]
  cases m.value r <;> rfl

theorem ending_sequence (id : Handle) (m : Machine) : (sequence id m).ending = (m.stored id, m) := by
  simp [sequence, onHeap, Action.focus, Action.bind_apply, stored]

theorem ending_withinLimit (length : Nat) (m : Machine) :
    (withinLimit length m).ending = (m.permit length, m) := by
  unfold withinLimit permit
  rw [Action.ending_bind_of_ending (y := .ok m) rfl, Outcome.andThen_ok, keepWithin]
  split <;> rfl

theorem ending_ofOutcome {α : Type} (x : Outcome Error α) (m : Machine) :
    ((Action.ofOutcome x : Eval α) m).ending = (x, m) := rfl

/-- Registers are read one after the other, up to the first one that does not exist. -/
theorem ending_mapM_read (rs : List Register) (m : Machine) :
    ((rs.mapM read : Eval (List Value)) m).ending = (rs.mapM m.value, m) := by
  induction rs with
  | nil => rfl
  | cons r rs ih =>
    -- The reads stop at the first register that does not exist, on both sides.
    rw [List.mapM_cons, List.mapM_cons, Action.ending_bind_of_ending (ending_read r m)]
    simp only [Action.ending_bind_of_ending ih]
    cases m.value r with
    | ok v => cases rs.mapM m.value <;> rfl
    | error e => rfl
    | fault c => rfl

end Reads

section Writes

theorem ending_write (r : Register) (v : Value) (m : Machine) : (write r v m).ending = m.put r v := by
  by_cases hr : r.number < m.registers.length <;> simp [write, put, Action.update, hr]

/-- Work on the heap leaves the registers alone, whatever comes of it. -/
theorem ending_onHeap {α : Type} (x : Heap.Edit α) (m : Machine) :
    (onHeap x m).ending =
      ((x m.heap).ending.1.mapError .heap, { m with heap := (x m.heap).ending.2 }) := rfl

/-- The sequence is stored before its handle is loaded. -/
theorem ending_allocateInto (dst : Register) (s : Sequence Value) (m : Machine) :
    (allocateInto dst s m).ending = m.commit (.store dst s) := by
  unfold allocateInto
  rw [Action.ending_bind, onHeap, Action.focus, Heap.allocate_apply]
  exact ending_write dst _ _

/-- An atomic edit of a stored sequence is a plan to replace it. -/
theorem ending_onHeap_edit {x : Sequence.Edit Value Unit} (hx : Action.Atomic x) (id : Handle)
    (m : Machine) :
    (onHeap (Heap.edit id x) m).ending = (m.stored id).andThen m fun s =>
      (passOn (Action.stateAfter x s)).andThen m fun s' => m.commit (.replace id s') := by
  rw [ending_onHeap, Heap.ending_edit_of_atomic hx, stored]
  cases m.heap.lookup id with
  | ok s =>
    simp only [Outcome.andThen_ok, Outcome.mapError_ok]
    cases Action.stateAfter x s <;> rfl
  | error e => rfl
  | fault c => rfl

/-- So is an assignment between live sequences, whether or not they are one. -/
theorem ending_onHeap_assign {m : Machine} {dst src : Handle} {target source : Sequence Value}
    (hdst : m.stored dst = .ok target) (hsrc : m.stored src = .ok source) (left right : Int) :
    (onHeap (Heap.assign dst left right src) m).ending =
      (passOn (Action.stateAfter (Sequence.assign left right source.elements) target)).andThen m
        fun s => m.commit (.replace dst s) := by
  rw [ending_onHeap,
    Heap.ending_assign_of_live (stored_eq_ok_iff.mp hdst) (stored_eq_ok_iff.mp hsrc)]
  cases Action.stateAfter (Sequence.assign left right source.elements) target <;> rfl

theorem ending_onHeap_release (id : Handle) (m : Machine) :
    ((onHeap (Heap.release id) >>= fun _ => pure () : Eval Unit) m).ending =
      (m.stored id).andThen m fun _ => m.commit (.release id) := by
  rw [Action.ending_bind, onHeap, Action.focus, stored, Heap.lookup]
  cases hid : m.heap.get? id with
  | none =>
    rw [Heap.release_apply_of_eq_none hid]
    rfl
  | some s =>
    rw [Heap.release_apply_of_eq_some hid]
    rfl

end Writes

/-- Carrying out an instruction is finding its plan and committing the effect. -/
theorem ending_evaluate (i : Instruction) (m : Machine) :
    (evaluate i m).ending = m.step i := by
  unfold step
  -- The reads of each instruction are peeled off one after the other, up to its only write.
  cases i with
  | loadInt dst val => exact ending_write dst _ m
  | loadStr dst val => exact ending_write dst _ m
  | newSeq dst len mode =>
    simp only [evaluate, plan, Action.liftM_eq_ofOutcome, Outcome.andThen_bind,
      Action.ending_bind_of_ending (ending_withinLimit _ m),
      Action.ending_bind_of_ending (ending_ofOutcome _ m), ending_allocateInto]
    rfl
  | collect dst srcs mode =>
    simp only [evaluate, plan, Outcome.andThen_bind,
      Action.ending_bind_of_ending (ending_withinLimit _ m),
      Action.ending_bind_of_ending (ending_mapM_read _ m), ending_allocateInto]
    rfl
  | len dst seq =>
    simp only [evaluate, plan, Outcome.andThen_bind,
      Action.ending_bind_of_ending (ending_readHandle _ m),
      Action.ending_bind_of_ending (ending_sequence _ m), ending_write]
    rfl
  | index dst seq index =>
    simp only [evaluate, plan, ofSequence, Outcome.andThen_bind,
      Action.ending_bind_of_ending (ending_readInt _ m),
      Action.ending_bind_of_ending (ending_readHandle _ m),
      Action.ending_bind_of_ending (ending_sequence _ m),
      Action.ending_bind_of_ending (ending_ofOutcome _ m), ending_write]
    rfl
  | setIndex seq index src =>
    simp only [evaluate, plan, Outcome.andThen_bind,
      Action.ending_bind_of_ending (ending_readInt _ m),
      Action.ending_bind_of_ending (ending_read _ m),
      Action.ending_bind_of_ending (ending_readHandle _ m),
      ending_onHeap_edit (Sequence.atomic_set _ _)]
    rfl
  | slice dst seq left right =>
    simp only [evaluate, plan, Action.liftM_eq_ofOutcome, Outcome.andThen_bind,
      Action.ending_bind_of_ending (ending_readInt _ m),
      Action.ending_bind_of_ending (ending_readHandle _ m),
      Action.ending_bind_of_ending (ending_sequence _ m),
      Action.ending_bind_of_ending (ending_withinLimit _ m),
      Action.ending_bind_of_ending (ending_ofOutcome _ m), ending_allocateInto]
    rfl
  | setSlice seq left right src =>
    simp only [evaluate, plan, ofSequence, Outcome.andThen_bind,
      Action.ending_bind_of_ending (ending_readInt _ m),
      Action.ending_bind_of_ending (ending_readHandle _ m),
      Action.ending_bind_of_ending (ending_sequence _ m),
      Action.ending_bind_of_ending (ending_ofOutcome _ m),
      Action.ending_bind_of_ending (ending_withinLimit _ m)]
    congr; funext left; congr; funext right; congr; funext dst; congr; funext src
    cases hsrc : m.stored src with
    | ok source =>
      cases hdst : m.stored dst with
      | ok target =>
        simp only [Outcome.andThen_ok, ending_onHeap_assign hdst hsrc]
        rfl
      | error e => rfl
      | fault c => rfl
    | error e => rfl
    | fault c => rfl
  | push seq src =>
    have hpush (v : Value) : Action.Atomic
        (Action.modify (Sequence.push v) : Sequence.Edit Value Unit) := Action.atomic_modify _
    simp only [evaluate, plan, Action.liftM_eq_ofOutcome, Outcome.andThen_bind,
      Action.ending_bind_of_ending (ending_read _ m),
      Action.ending_bind_of_ending (ending_readHandle _ m),
      Action.ending_bind_of_ending (ending_sequence _ m),
      Action.ending_bind_of_ending (ending_ofOutcome _ m),
      Action.ending_bind_of_ending (ending_withinLimit _ m), ending_onHeap_edit (hpush _)]
    congr; funext value; congr; funext id
    cases m.stored id <;> rfl
  | release seq =>
    simp only [evaluate, plan, Outcome.andThen_bind,
      Action.ending_bind_of_ending (ending_readHandle _ m), ending_onHeap_release]
    rfl
  | ret src => rfl

end SequenceMachine.Machine
