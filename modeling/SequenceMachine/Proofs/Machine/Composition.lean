import SequenceMachine.Proofs.Machine.Cause

/-!
Programs one after the other. Either a program is carried out to its end, and a program behind it goes on
from the registers and the heap that it leaves (`Executes.ending_runFrom_append`), or it stops before its
end, and then it stops so wherever it stands and whatever is behind it (`Stops`). Only in the first case
does a run report the end of its program (`RanOff`).
-/

namespace SequenceMachine.Machine

variable {p q : Program} {m m' : Machine} {i : Instruction} {k : Nat} {x : Outcome Error Value × Machine}

def RanOff (outcome : Outcome Error Value) : Prop :=
  ∃ pc length, outcome = .error (.endOfProgram pc length)

/-- From `m`, the program ends with `x` before its end, wherever it stands and whatever is behind it. -/
structure Stops (p : Program) (m : Machine) (x : Outcome Error Value × Machine) : Prop where
  early : ¬ RanOff x.1
  ending_append : ∀ length pc q, (runFrom length pc (p ++ q) m).ending = x

section Executed

/-- What is behind a program goes on from the state that the program leaves. -/
theorem Executes.ending_runFrom_append (h : Executes p m m') (length pc : Nat) (q : Program) :
    (runFrom length pc (p ++ q) m).ending = (runFrom length (pc + p.length) q m').ending := by
  induction h generalizing pc with
  | nil m => rfl
  | @cons i rest m m₁ m' hstep hnext _ ih =>
    have hplace : pc + (i :: rest).length = pc + 1 + rest.length := by
      rw [List.length_cons]
      omega
    rw [List.cons_append, ending_runFrom_cons, hstep, Outcome.andThen_ok, hnext, hplace]
    exact ih (pc + 1)

/-- A program that is carried out reports its end, with the place behind its last instruction. -/
theorem Executes.ending_runFrom (h : Executes p m m') (length pc : Nat) :
    (runFrom length pc p m).ending = (.error (.endOfProgram (pc + p.length) length), m') := by
  have happend := h.ending_runFrom_append length pc []
  rwa [List.append_nil, ending_runFrom_nil] at happend

/-- A program with a return is not carried out to its end. -/
theorem Executes.returned?_eq_none (h : Executes p m m') : ∀ i ∈ p, i.returned? = none := by
  induction h with
  | nil m =>
    intro i hi
    exact absurd hi List.not_mem_nil
  | cons _ hnext _ ih =>
    intro i hi
    rcases List.mem_cons.mp hi with rfl | hrest
    · exact hnext
    · exact ih i hrest

end Executed

section Stopped

/-- No instruction ends a run as the end of the program does. -/
theorem EndsBy.not_ranOff (h : EndsBy m i x) : ¬ RanOff x.1 := by
  rintro ⟨pc, length, hend⟩
  obtain ⟨outcome, m'⟩ := x
  obtain rfl : outcome = .error (.endOfProgram pc length) := hend
  rcases h.error_cases with hfailed | ⟨src, _, hmissing⟩
  · cases cause_of_step hfailed
  · cases (value_eq_error_iff.mp hmissing).1

/-- A run that comes to an instruction by which it ends has no other ending. -/
theorem EndsBy.ending_runFrom (h : EndsBy m' i x) (hreach : Reaches p m k i m') (length pc : Nat) :
    (runFrom length pc p m).ending = x := by
  induction p generalizing m k pc with
  | nil => cases hreach.1
  | cons j rest ih =>
    rw [ending_runFrom_cons]
    cases k with
    | zero =>
      obtain ⟨rfl, rfl⟩ := hreach.eq_first
      cases h with
      | error hstep => rw [hstep, Outcome.andThen_error]
      | fault hstep => rw [hstep, Outcome.andThen_fault]
      | ret src => rfl
    | succ k =>
      obtain ⟨m₁, hstep, hnext, hlater⟩ := hreach.exists_later
      rw [hstep, Outcome.andThen_ok, hnext]
      exact ih hlater (pc + 1)

/-- A program comes to the same instructions as the beginning of a longer one. -/
theorem Reaches.append (h : Reaches p m k i m') (q : Program) : Reaches (p ++ q) m k i m' := by
  obtain ⟨hget, hexec⟩ := h
  have hk : k < p.length := (List.getElem?_eq_some_iff.mp hget).1
  refine ⟨?_, ?_⟩
  · rw [List.getElem?_append_left hk, hget]
  · rwa [List.take_append_of_le_length (Nat.le_of_lt hk)]

theorem Stops.ending_runFrom (h : Stops p m x) (length pc : Nat) : (runFrom length pc p m).ending = x := by
  have happend := h.ending_append length pc []
  rwa [List.append_nil] at happend

/-- Every program is carried out to its end, or stops before it. -/
theorem executes_or_stops (p : Program) (m : Machine) : (∃ m', Executes p m m') ∨ ∃ x, Stops p m x := by
  rcases ending_runFrom_cases p.length 0 p m with ⟨m', hexec, _⟩ | ⟨k, i, m', hreach, hends⟩
  · exact .inl ⟨m', hexec⟩
  · -- The instruction by which the run ends is come to in front of any other program as well.
    refine .inr ⟨_, hends.not_ranOff, ?_⟩
    intro length pc q
    exact hends.ending_runFrom (hreach.append q) length pc

end Stopped

section Run

theorem ending_run_of_executes (h : Executes p (clearRegisters m) m') :
    (run p m).ending = (.error (.endOfProgram p.length p.length), m') := by
  rw [ending_run, h.ending_runFrom, Nat.zero_add]

/-- A program that stops does so whatever is behind it. -/
theorem ending_run_of_stops (h : Stops p (clearRegisters m) x) (q : Program) :
    (run (p ++ q) m).ending = x := by
  rw [ending_run, h.ending_append]

/-- The end of a program is reported exactly if all of it is carried out. -/
theorem ranOff_run_iff : RanOff (run p m).outcome ↔ Executes p (clearRegisters m) (run p m).state := by
  constructor
  · intro hoff
    rcases executes_or_stops p (clearRegisters m) with ⟨m', hexec⟩ | ⟨x, hstops⟩
    · have hstate : (run p m).state = m' := congrArg Prod.snd (ending_run_of_executes hexec)
      rwa [hstate]
    · have hend : (run p m).ending = x := by
        rw [ending_run, hstops.ending_runFrom]
      exact absurd (hend ▸ hoff) hstops.early
  · intro hexec
    exact ⟨_, _, congrArg Prod.fst (ending_run_of_executes hexec)⟩

/-- Behind a program that is carried out the second one goes on, from the registers and the heap as they
were left. -/
theorem ending_run_append_of_executes (h : Executes p (clearRegisters m) m') (q : Program) :
    (run (p ++ q) m).ending = (runFrom (p.length + q.length) p.length q m').ending := by
  rw [ending_run, h.ending_runFrom_append, List.length_append, Nat.zero_add]

/-- Where a program stands, and how long the whole is, shows in nothing but the report of the end. -/
theorem runFrom_elsewhere (q : Program) (m : Machine) (length pc length' pc' : Nat) :
    let r := runFrom length pc q m
    let r' := runFrom length' pc' q m
    r'.state = r.state ∧ (¬ RanOff r.outcome → r'.outcome = r.outcome) ∧
      (RanOff r.outcome → r'.outcome = .error (.endOfProgram (pc' + q.length) length')) := by
  intro r r'
  rcases executes_or_stops q m with ⟨m', hexec⟩ | ⟨x, hstops⟩
  · obtain ⟨houtcome, hstate⟩ := Prod.mk.inj (hexec.ending_runFrom length pc)
    obtain ⟨houtcome', hstate'⟩ := Prod.mk.inj (hexec.ending_runFrom length' pc')
    exact ⟨hstate'.trans hstate.symm, fun hearly => absurd ⟨_, _, houtcome⟩ hearly, fun _ => houtcome'⟩
  · have hsame : r'.ending = r.ending :=
      (hstops.ending_runFrom length' pc').trans (hstops.ending_runFrom length pc).symm
    have hearly : ¬ RanOff r.ending.1 := by
      rw [show r.ending = x from hstops.ending_runFrom length pc]
      exact hstops.early
    exact ⟨congrArg Prod.snd hsame, fun _ => congrArg Prod.fst hsame, fun hoff => absurd hoff hearly⟩

end Run

/-- The run of two programs in one is made up of their runs. If the first one ends otherwise than at its
end, by a return, by a return of a register that does not exist or by an instruction that fails, the second
has no part in the run. If the first one ends at its end, all of it was carried out, and the run goes on
with the second from the registers and the heap that were left; if that comes to its end too, the end of
the whole is reported. A program with a return never ends at its end. -/
theorem run_append (p q : Program) (m : Machine) :
    (¬ RanOff (run p m).outcome →
      (run (p ++ q) m).outcome = (run p m).outcome ∧ (run (p ++ q) m).state = (run p m).state) ∧
    (∀ pc length, (run p m).outcome = .error (.endOfProgram pc length) →
      let rest := runFrom q.length 0 q (run p m).state
      pc = p.length ∧ length = p.length ∧ Executes p (clearRegisters m) (run p m).state ∧
      (¬ RanOff rest.outcome → (run (p ++ q) m).outcome = rest.outcome) ∧
      (RanOff rest.outcome → (run (p ++ q) m).outcome =
        .error (.endOfProgram (p.length + q.length) (p.length + q.length))) ∧
      (run (p ++ q) m).state = rest.state) ∧
    ∀ src, Instruction.ret src ∈ p → ¬ RanOff (run p m).outcome := by
  refine ⟨?_, ?_, ?_⟩
  · intro hearly
    rcases executes_or_stops p (clearRegisters m) with ⟨m', hexec⟩ | ⟨x, hstops⟩
    · exact absurd ⟨_, _, congrArg Prod.fst (ending_run_of_executes hexec)⟩ hearly
    · have halone := ending_run_of_stops hstops []
      rw [List.append_nil] at halone
      exact Prod.mk.inj ((ending_run_of_stops hstops q).trans halone.symm)
  · intro pc length hend rest
    have hexec : Executes p (clearRegisters m) (run p m).state := ranOff_run_iff.mp ⟨pc, length, hend⟩
    have hreport : (run p m).outcome = .error (.endOfProgram p.length p.length) :=
      congrArg Prod.fst (ending_run_of_executes hexec)
    rw [hend] at hreport
    obtain ⟨rfl, rfl⟩ := Error.endOfProgram.inj (Outcome.error.inj hreport)
    -- Behind the first program the second one stands at another place of a longer program.
    obtain ⟨houtcome, hstate⟩ := Prod.mk.inj (ending_run_append_of_executes hexec q)
    obtain ⟨hleft, hearly, hoff⟩ := runFrom_elsewhere q (run p m).state q.length 0
      (p.length + q.length) p.length
    rw [houtcome, hstate]
    exact ⟨rfl, rfl, hexec, hearly, hoff, hleft⟩
  · intro src hmem hoff
    cases (ranOff_run_iff.mp hoff).returned?_eq_none _ hmem

def preparing : Program := [.newSeq ⟨0⟩ 1 .cyclic, .loadInt ⟨1⟩ 7]

def finishing : Program := [.push ⟨0⟩ ⟨1⟩, .ret ⟨0⟩]

def returningNothing : Program := [.ret ⟨99⟩]

/-- The second program finds the registers that the first one loaded, which are cleared before a run of
its own. Two programs that come to their ends report the end of both. -/
theorem run_append_preparing :
    let m := new Config.default
    ((run preparing m).outcome = .error (.endOfProgram 2 2) ∧
      (run finishing m).outcome = .error (.kindMismatch .sequence .nothing) ∧
      (run (preparing ++ finishing) m).outcome = .ok (.seq ⟨0⟩) ∧
      (run (preparing ++ finishing) m).state.heap.get? ⟨0⟩ = some ⟨[.nothing, .int 7], .cyclic⟩) ∧
    (run (preparing ++ preparing) m).outcome = .error (.endOfProgram 4 4) ∧
    (¬ RanOff (run returningNothing m).outcome ∧
      (run (returningNothing ++ finishing) m).outcome = .error (.noRegister ⟨99⟩)) ∧
    (Instruction.ret ⟨0⟩ ∈ finishing ∧ ¬ RanOff (run finishing m).outcome) := by
  intro m
  have hprepared : (run preparing m).outcome = .error (.endOfProgram 2 2) := by decide
  have hunknown : (run returningNothing m).outcome = .error (.noRegister ⟨99⟩) := by decide
  have hmem : Instruction.ret ⟨0⟩ ∈ finishing := by decide
  obtain ⟨_, _, _, hreturned, _, hheap⟩ := (run_append preparing finishing m).2.1 2 2 hprepared
  obtain ⟨_, _, _, _, hboth, _⟩ := (run_append preparing preparing m).2.1 2 2 hprepared
  have hearly : ¬ RanOff (run returningNothing m).outcome :=
    (run_append returningNothing finishing m).2.2 ⟨99⟩ (by decide)
  refine ⟨⟨hprepared, by decide, ?_, ?_⟩, ?_, ⟨hearly, ?_⟩, hmem, ?_⟩
  · have hrest : (runFrom 2 0 finishing (run preparing m).state).outcome = .ok (.seq ⟨0⟩) := by decide
    rw [← hrest]
    apply hreturned
    rintro ⟨pc, length, hend⟩
    cases hrest.symm.trans hend
  · rw [hheap]
    decide
  · exact hboth ⟨2, 2, by decide⟩
  · rw [((run_append returningNothing finishing m).1 hearly).1, hunknown]
  · exact (run_append finishing [] m).2.2 ⟨0⟩ hmem

end SequenceMachine.Machine
