import SequenceMachine.Machine.Basic

/-!
What a host does with a machine: it runs programs, and works on the heap between runs. Each instruction
reads its operands, checks the length of what it would make, and only then allocates or writes. A run
clears the registers, keeps the heap, and carries out instructions from the first one until one of them
ends it.
-/

namespace SequenceMachine.Machine

def allocateInto (dst : Register) (s : Sequence Value) : Eval Unit := do
  let id ← onHeap (Heap.allocate s)
  write dst (.seq id)

def evaluate : Instruction → Eval Unit
  | .loadInt dst val => write dst (.int val)
  | .loadStr dst val => write dst (.str val)
  | .newSeq dst len mode => do
    withinLimit len
    let made ← (Sequence.replicate len .nothing mode : Outcome Error _)
    allocateInto dst made
  | .collect dst srcs mode => do
    withinLimit srcs.length
    let elements ← srcs.mapM read
    allocateInto dst ⟨elements, mode⟩
  | .len dst seq => do
    let s ← sequence (← readHandle seq)
    write dst (.int (Index.ofLength s.length))
  | .index dst seq index => do
    let index ← readInt index
    let s ← sequence (← readHandle seq)
    let value ← ofSequence (s.get index)
    write dst value
  | .setIndex seq index src => do
    let index ← readInt index
    let value ← read src
    let id ← readHandle seq
    onHeap (Heap.edit id (Sequence.set index value))
  | .slice dst seq left right => do
    let left ← readInt left
    let right ← readInt right
    let s ← sequence (← readHandle seq)
    -- A slice over many turns is refused before anything is copied.
    withinLimit (s.sliceLength left right)
    let made ← (s.slice left right : Outcome Error _)
    allocateInto dst made
  | .setSlice seq left right src => do
    let left ← readInt left
    let right ← readInt right
    let dst ← readHandle seq
    let src ← readHandle src
    -- The length is predicted, so that a refused assignment leaves the target as it is.
    let source ← sequence src
    let target ← sequence dst
    let length ← ofSequence (target.assignedLength left right source.length)
    withinLimit length
    onHeap (Heap.assign dst left right src)
  | .push seq src => do
    let value ← read src
    let id ← readHandle seq
    let target ← sequence id
    let length ← (Size.add target.length 1 : Outcome Error Nat)
    withinLimit length
    onHeap (Heap.edit id (Action.modify (Sequence.push value)))
  | .release seq => do
    let id ← readHandle seq
    let _ ← onHeap (Heap.release id)
  | .ret _ => pure ()

def traceStep (pc : Nat) (i : Instruction) : Eval Unit := do
  if (← Action.state).config.traceInstructions then
    Action.emit (.step pc i)

/-- Carries out the instructions of a program from `pc` on, `length` being the number of all. -/
def runFrom (length pc : Nat) : Program → Eval Value
  | [] => Action.reject (.endOfProgram pc length)
  | i :: rest => do
    traceStep pc i
    Action.logError (evaluate i) (Event.failed pc)
    match i.returned? with
    | none => runFrom length (pc + 1) rest
    | some src => takeOut src

def clearRegisters (m : Machine) : Machine :=
  { m with registers := m.registers.map fun _ => .nothing }

def run (program : Program) : Eval Value := do
  Action.modify clearRegisters
  runFrom program.length 0 program

inductive Operation where
  | run (program : Program)
  | request (request : Heap.Request)

inductive Response where
  | value (value : Value)
  | reply (reply : Heap.Reply)

def perform : Operation → Eval Response
  | .run program => do return .value (← run program)
  | .request request => do return .reply (← onHeap (Heap.perform request))

end SequenceMachine.Machine
