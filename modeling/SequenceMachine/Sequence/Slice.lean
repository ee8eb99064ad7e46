import SequenceMachine.Sequence.Basic

/-!
Slices: reading a range of a sequence and assigning to it. A read makes a new bounded sequence. An
assignment is first resolved to a target and refused as a whole if it has none, so that nothing is
written before everything is known to fit. A range of a cyclic sequence that crosses the end of the
buffer bridges two separate stretches and has to be filled exactly; any other range may shrink or grow.
-/

namespace SequenceMachine.Sequence

variable {α : Type}

def takeTurns (buffer : List α) : List α → Nat → List α
  | _, 0 => []
  | a :: rest, n + 1 => a :: takeTurns buffer rest n
  | [], n + 1 =>
    match buffer with
    | [] => []
    | a :: rest => a :: takeTurns buffer rest n

def copyRange {ε : Type} (s : Sequence α) (start stop : Nat) : Outcome ε (List α) :=
  if start ≤ stop ∧ stop ≤ s.length then .ok ((s.elements.take stop).drop start)
  else .fault (.range start stop s.length)

/-- The elements from `left` up to `right` as a new bounded sequence. A cyclic sequence is read over as
many turns as the range takes; of a bounded one, what lies outside is left out. -/
def slice {ε : Type} (s : Sequence α) (left right : Int) : Outcome ε (Sequence α) :=
  if s.isEmpty then pure (empty .bounded)
  else
    match s.mode with
    | .cyclic =>
      if right ≤ left then pure (empty .bounded)
      else do
        let start ← Index.wrap left s.length
        if Index.span left right ≤ Size.capacity then
          pure (ofList (takeTurns s.elements (s.elements.drop start) (Index.span left right)))
        else .fault .capacity
    | .bounded =>
      if Index.clamp right s.length ≤ Index.clamp left s.length then pure (empty .bounded)
      else do
        let copied ← s.copyRange (Index.clamp left s.length) (Index.clamp right s.length)
        pure (ofList copied)

def sliceLength (s : Sequence α) (left right : Int) : Nat :=
  if s.isEmpty then 0
  else
    match s.mode with
    | .cyclic => if right ≤ left then 0 else Index.span left right
    | .bounded => Index.clamp right s.length - Index.clamp left s.length

inductive Target where
  /-- The positions from `start` up to `stop`, for a source of any length. -/
  | contiguous (start stop : Nat)
  /-- The positions from `start` to the end and those up to `stop`, for a source of that length. -/
  | bridging (start stop : Nat)
deriving DecidableEq

/-- The target of an assignment to the range from `left` up to `right`. An inverted range is the empty
range at its left bound. A cyclic range has at most one turn. -/
def target (s : Sequence α) (left right : Int) (sourceLength : Nat) : Outcome Error Target :=
  match s.mode with
  | .bounded =>
    let start := Index.clamp left s.length
    pure (.contiguous start (max start (Index.clamp right s.length)))
  | .cyclic =>
    if right ≤ left then do
      let start ← if s.length = 0 then pure 0 else Index.wrap left s.length
      pure (.contiguous start start)
    else if left + s.length < right then
      .error (.overWrapped left right s.length)
    else do
      let start ← Index.wrap left s.length
      let wrapped ← Index.wrap right s.length
      -- A range that stops at the end of the buffer reaches its last element, not its first.
      let stop := if wrapped = 0 then s.length else wrapped
      if start < stop then
        pure (.contiguous start stop)
      else
        let expected ← Size.sub (← Size.add stop s.length) start
        if sourceLength = expected then pure (.bridging start stop)
        else .error (.bridgeSize expected sourceLength)

def assignedLength (s : Sequence α) (left right : Int) (sourceLength : Nat) :
    Outcome Error Nat := do
  match ← s.target left right sourceLength with
  | .contiguous start stop =>
    let kept ← Size.sub s.length (← Size.sub stop start)
    Size.add kept sourceLength
  | .bridging _ _ => pure s.length

def overwriteAcrossEnd (start stop : Nat) (source : List α) : Edit α Unit :=
  Action.update fun s =>
    if start ≤ s.length ∧ stop ≤ start then
      if stop + s.length - start = source.length then
        pure ((), { s with
          elements := source.drop (s.length - start) ++ (s.elements.take start).drop stop
            ++ source.take (s.length - start) })
      else .fault (.unevenCopy (stop + s.length - start) source.length)
    else .fault (.range stop start s.length)

def assign (left right : Int) (source : List α) : Edit α Unit := do
  let s ← Action.state
  let found ← Action.logError (Action.ofOutcome (s.target left right source.length))
    (Event.refused left right s.length source.length)
  match found with
  | .contiguous start stop => do
    Action.emit (.contiguous start stop source.length)
    splice start stop source
  | .bridging start stop => do
    Action.emit (.bridging start stop source.length)
    overwriteAcrossEnd start stop source

def assignSelf (left right : Int) : Edit α Unit := do
  let s ← Action.state
  Action.emit (.selfCopied left right s.length)
  assign left right s.elements

/-- From a buffer that has elements any number of them can be read. -/
theorem length_takeTurns {buffer : List α} (h : buffer ≠ []) (rest : List α) (n : Nat) :
    (takeTurns buffer rest n).length = n := by
  induction n generalizing rest with
  | zero => cases rest <;> rfl
  | succ n ih =>
    cases rest with
    | cons a rest => simp [takeTurns, ih]
    | nil =>
      cases buffer with
      | nil => exact absurd rfl h
      | cons a rest => simp [takeTurns, ih]

/-- Turns that begin at position `p` of the buffer hold at place `j` the element `j` positions after
`p`, counted around the buffer. -/
theorem getElem?_takeTurns {buffer : List α} {p j n : Nat} (h : buffer ≠ [])
    (hp : p ≤ buffer.length) (hj : j < n) :
    (takeTurns buffer (buffer.drop p) n)[j]? = buffer[(p + j) % buffer.length]? := by
  have hpos : 0 < buffer.length := List.length_pos_iff.mpr h
  induction n generalizing p j with
  | zero => omega
  | succ n ih =>
    -- At the end of the buffer the next turn begins, as it does at position 0.
    have hturn : ∀ q, q < buffer.length → ∀ i, i < n + 1 →
        (takeTurns buffer (buffer.drop q) (n + 1))[i]? = buffer[(q + i) % buffer.length]? := by
      intro q hq i hi
      rw [List.drop_eq_getElem_cons hq]
      cases i with
      | zero => simp [takeTurns, Nat.mod_eq_of_lt hq]
      | succ i =>
        have hnext := ih (p := q + 1) (j := i) (by omega) (by omega)
        simp only [takeTurns, List.getElem?_cons_succ, hnext]
        rw [show q + 1 + i = q + (i + 1) by omega]
    by_cases hlast : p = buffer.length
    · have hstart := hturn 0 hpos j hj
      subst hlast
      rw [List.drop_length, Nat.add_mod_left]
      rw [List.drop_zero, Nat.zero_add] at hstart
      rw [← hstart]
      cases buffer with
      | nil => exact absurd rfl h
      | cons a rest => simp [takeTurns]
    · exact hturn p (by omega) j hj

end SequenceMachine.Sequence
