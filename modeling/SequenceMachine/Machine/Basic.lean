import SequenceMachine.Config.Basic
import SequenceMachine.Heap.Basic
import SequenceMachine.Instruction

namespace SequenceMachine

structure Machine where
  config : Config
  registers : List Value
  heap : Heap
deriving DecidableEq

namespace Machine

inductive Error where
  | heap (cause : Heap.Error)
  | kindMismatch (expected found : Value.Kind)
  | noRegister (register : Register)
  | overLimit (length max : Nat)
  | endOfProgram (pc length : Nat)
deriving DecidableEq

def Error.message : Error → String
  | .heap cause => cause.message
  | .kindMismatch expected found => s!"type mismatch: expected {expected.name}, found {found.name}"
  | .noRegister register => s!"unknown register {register.text}"
  | .overLimit length max => s!"sequence length {length} exceeds the configured maximum of {max}"
  | .endOfProgram pc length => s!"program counter out of range (pc={pc}, len={length})"

inductive Event where
  | sequence (event : Sequence.Event)
  | step (pc : Nat) (instruction : Instruction)
  | failed (pc : Nat) (cause : Error)
  | overLimit (length max : Nat)
deriving DecidableEq

def Event.report : Event → Report
  | .sequence event => event.report
  | .step pc instruction =>
    ⟨.trace, "interp.step", [("pc", .number pc), ("instruction", .text instruction.text)]⟩
  | .failed pc cause =>
    ⟨.debug, "interp.instruction_failed", [("pc", .number pc), ("err", .text cause.message)]⟩
  | .overLimit length max =>
    ⟨.warn, "sequence length limit exceeded", [("len", .number length), ("max", .number max)]⟩

variable {α σ : Type}

abbrev Eval (α : Type) : Type := Action Error Event Machine α

def new (config : Config) : Machine :=
  ⟨config, List.replicate config.registers .nothing, Heap.empty⟩

def onHeap (x : Heap.Edit α) : Eval α :=
  Action.focus Machine.heap (fun heap m => { m with heap }) Error.heap Event.sequence x

def ofSequence (x : Outcome Sequence.Error α) : Eval α :=
  Action.ofOutcome (x.mapError fun cause => .heap (.sequence cause))

def sequence (id : Handle) : Eval (Sequence Value) := do
  onHeap do (← Action.state).lookup id

def read (r : Register) : Eval Value := do
  Outcome.ofOption (Error.noRegister r) (← Action.state).registers[r.number]?

def write (r : Register) (value : Value) : Eval Unit :=
  Action.update fun m =>
    if r.number < m.registers.length then
      pure ((), { m with registers := m.registers.set r.number value })
    else .error (.noRegister r)

def readInt (r : Register) : Eval Int := do
  let value ← read r
  Outcome.ofOption (Error.kindMismatch .int value.kind) value.asInt?

def readHandle (r : Register) : Eval Handle := do
  let value ← read r
  Outcome.ofOption (Error.kindMismatch .sequence value.kind) value.asSeq?

def takeOut (r : Register) : Eval Value := do
  let value ← read r
  write r .nothing
  return value

def keepWithin (limits : Limits) (length : Nat) : Action Error Event σ Unit := do
  if limits.ceiling < length then
    Action.emit (.overLimit length limits.ceiling)
    Action.reject (.overLimit length limits.ceiling)

def withinLimit (length : Nat) : Eval Unit := do
  keepWithin (← Action.state).config.limits length

end Machine

end SequenceMachine
