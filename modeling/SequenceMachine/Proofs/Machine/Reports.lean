import SequenceMachine.Proofs.Machine.Log

namespace SequenceMachine.Machine

variable {p : Program} {m m' : Machine} {i : Instruction} {k pc : Nat} {e : Error} {event : Event}
  {report : Report}

def stepReport (pc : Nat) (i : Instruction) : Report :=
  ⟨.trace, "interp.step", [("pc", .number pc), ("instruction", .text i.text)]⟩

def failureReport (pc : Nat) (e : Error) : Report :=
  ⟨.debug, "interp.instruction_failed", [("pc", .number pc), ("err", .text e.message)]⟩

def warningReport (length max : Nat) : Report :=
  ⟨.warn, "sequence length limit exceeded", [("len", .number length), ("max", .number max)]⟩

def warningReports : Error → List Report
  | .overLimit length max => [warningReport length max]
  | _ => []

def assignmentNames : List String :=
  ["sequence.set_slice.alias_snapshot", "sequence.set_slice.non_bridging", "sequence.set_slice.bridging",
    "sequence.set_slice.rejected"]

def Assignment.targetReport (sourceLength : Nat) : Sequence.Target → Report
  | .contiguous start stop =>
    ⟨.trace, "sequence.set_slice.non_bridging",
      [("start", .number start), ("end", .number stop), ("source_len", .number sourceLength)]⟩
  | .bridging start stop =>
    ⟨.trace, "sequence.set_slice.bridging",
      [("start", .number start), ("end", .number stop), ("source_len", .number sourceLength)]⟩

def Assignment.reports (a : Assignment) (target source : Sequence Value) (t : Sequence.Target) :
    List Report :=
  (if a.dst = a.src then
    [⟨.trace, "sequence.set_slice.alias_snapshot",
      [("left", .number a.left), ("right", .number a.right), ("len", .number target.length)]⟩]
  else []) ++ [Assignment.targetReport source.length t]

/-- `Shows m pc i x reports`: on the machine `m`, the instruction `i` at `pc` that ends in `x` is seen by
these reports, behind that of its step. -/
inductive Shows (m : Machine) (pc : Nat) : Instruction → Outcome Error Unit → List Report → Prop
  | assigned {seq left right src : Register} {a : Assignment} {target source : Sequence Value}
    {t : Sequence.Target} (ha : a.HeldBy m seq left right src) (hdst : m.heap.get? a.dst = some target)
    (hsrc : m.heap.get? a.src = some source) (ht : target.target a.left a.right source.length = .ok t) :
    Shows m pc (.setSlice seq left right src) (.ok ()) (a.reports target source t)
  | silent {i : Instruction} (hi : i.assigns = false) : Shows m pc i (.ok ()) []
  | failed (i : Instruction) (e : Error) :
    Shows m pc i (.error e) (warningReports e ++ [failureReport pc e])
  | fault (i : Instruction) (c : Fault) : Shows m pc i (.fault c) []

/-- The reports of the result `r` recount the run of `p` that starts from the state `m` and ends in `r`. -/
structure Reported (p : Program) (m : Machine) (r : Result Error Event Machine Value) : Prop where
  -- Instruction after instruction there is the step, where it is asked for, and what the instruction shows.
  lined : r.events.map Event.report = (visits p m).zipIdx.flatMap fun v =>
    (if m.config.traceInstructions then [stepReport v.2 v.1.1] else []) ++
      (reports v.2 v.1.1 v.1.2).map Event.report
  shown : ∀ k i m', Reaches p m k i m' →
    Shows m' k i (evaluate i m').outcome ((reports k i m').map Event.report)
  stepped : m.config.traceInstructions = true →
    (r.events.map Event.report).filter (fun report => report.name = "interp.step") =
      (visits p m).zipIdx.map fun v => stepReport v.2 v.1.1
  -- By its name a failure is that of the last instruction, and a warning that of a refused length.
  failed : ∀ report, report ∈ r.events.map Event.report ∧ report.name = "interp.instruction_failed" ↔
    ∃ k i m' e, Reaches p m k i m' ∧ (evaluate i m').outcome = .error e ∧ report = failureReport k e
  failedLast : ∀ k i m' e, Reaches p m k i m' → (evaluate i m').outcome = .error e →
    r.outcome = .error e ∧ (visits p m).length = k + 1 ∧
      ∃ before, r.events.map Event.report = before ++ (warningReports e ++ [failureReport k e]) ∧
        ∀ report ∈ before,
          report.name ∉ ["interp.instruction_failed", "sequence length limit exceeded"]
  warned : ∀ report, report ∈ r.events.map Event.report ∧ report.name = "sequence length limit exceeded" ↔
    ∃ length max, r.outcome = .error (.overLimit length max) ∧ report = warningReport length max
  warnedLast : ∀ length max, r.outcome = .error (.overLimit length max) →
    ∃ k before, r.events.map Event.report =
        before ++ [warningReport length max, failureReport k (.overLimit length max)] ∧
      ∀ report ∈ before, report.name ∉ ["interp.instruction_failed", "sequence length limit exceeded"]
  -- No instruction but an assignment that is carried out is seen by the names of slice assignment.
  assigned : ∀ report ∈ r.events.map Event.report, report.name ∈ assignmentNames →
    ∃ k seq left right src m', Reaches p m k (.setSlice seq left right src) m' ∧
      (evaluate (.setSlice seq left right src) m').outcome = .ok () ∧
      report ∈ (reports k (.setSlice seq left right src) m').map Event.report

section Names

/-- The reports of steps are told from all others by their name. -/
theorem name_report_eq_step_iff (event : Event) :
    event.report.name = "interp.step" ↔ event.isStep = true := by
  cases event with
  | sequence event => cases event <;> simp [Event.report, Sequence.Event.report, Event.isStep]
  | _ => simp [Event.report, Event.isStep]

/-- Only a failure has the name of one. -/
theorem exists_eq_failed_of_name (h : event.report.name = "interp.instruction_failed") :
    ∃ pc e, event = .failed pc e := by
  cases event with
  | failed pc e => exact ⟨pc, e, rfl⟩
  | sequence event => cases event <;> simp [Event.report, Sequence.Event.report] at h
  | _ => simp [Event.report] at h

theorem exists_eq_overLimit_of_name (h : event.report.name = "sequence length limit exceeded") :
    ∃ length max, event = .overLimit length max := by
  cases event with
  | overLimit length max => exact ⟨length, max, rfl⟩
  | sequence event => cases event <;> simp [Event.report, Sequence.Event.report] at h
  | _ => simp [Event.report] at h

theorem exists_eq_sequence_of_name (h : event.report.name ∈ assignmentNames) :
    ∃ told, event = .sequence told := by
  cases event with
  | sequence told => exact ⟨told, rfl⟩
  | _ => simp [Event.report, assignmentNames] at h

/-- Calm events have neither the name of a failure nor that of a warning. -/
theorem Event.Calm.name_report (h : event.Calm) :
    event.report.name ∉ ["interp.instruction_failed", "sequence length limit exceeded"] := by
  intro hname
  rcases List.mem_pair.mp hname with hfailed | hwarned
  · obtain ⟨pc, e, rfl⟩ := exists_eq_failed_of_name hfailed
    exact h
  · obtain ⟨length, max, rfl⟩ := exists_eq_overLimit_of_name hwarned
    exact h

theorem name_of_mem_map {before : List Event} (h : ∀ event ∈ before, event.Calm) :
    ∀ report ∈ before.map Event.report,
      report.name ∉ ["interp.instruction_failed", "sequence length limit exceeded"] :=
  List.forall_mem_map.mpr fun event hevent => (h event hevent).name_report

theorem map_report_warnings (e : Error) : e.warnings.map Event.report = warningReports e := by
  cases e <;> rfl

/-- An assignment is seen by the copy, where one is made, and by its target. -/
theorem map_report_events (a : Assignment) (target source : Sequence Value) (t : Sequence.Target) :
    (a.events target source t).map Event.report = a.reports target source t := by
  rw [Assignment.events, Assignment.reports, List.map_append, apply_ite (List.map Event.report)]
  cases t <;> rfl

end Names

section Shown

/-- What an instruction tells is what is seen of it. -/
theorem Tells.shows {x : Outcome Error Unit} {events : List Event} (h : Tells m i x events) (pc : Nat) :
    Shows m pc i x ((events ++ Action.reported (fun e => [Event.failed pc e]) x).map Event.report) := by
  cases h with
  | assigned ha hdst hsrc ht =>
    rw [Action.reported_ok, List.append_nil, map_report_events]
    exact .assigned ha hdst hsrc ht
  | silent hi => exact .silent hi
  | failed i e =>
    rw [Action.reported_error, List.map_append, map_report_warnings]
    exact .failed i e
  | fault i c => exact .fault i c

/-- Only an assignment that is carried out tells of a sequence. -/
theorem Tells.assigned_of_mem {x : Outcome Error Unit} {events : List Event} {told : Sequence.Event}
    (h : Tells m i x events) (hmem : .sequence told ∈ events) :
    ∃ seq left right src, i = .setSlice seq left right src ∧ x = .ok () := by
  cases h with
  | @assigned seq left right src => exact ⟨seq, left, right, src, rfl, rfl⟩
  | silent | fault => cases hmem
  | failed i e =>
    obtain ⟨_, _, -, heq⟩ := mem_warnings hmem
    cases heq

theorem sequence_mem_lines {told : Sequence.Event} (h : .sequence told ∈ lines pc i m) :
    .sequence told ∈ (evaluate i m).events := by
  rcases List.mem_append.mp h with htraced | hreported
  · split at htraced
    · cases List.mem_singleton.mp htraced
    · cases htraced
  · rcases List.mem_append.mp hreported with hevents | hfailed
    · exact hevents
    · cases hout : (evaluate i m).outcome with
      | error e =>
        rw [hout] at hfailed
        cases List.mem_singleton.mp hfailed
      | _ =>
        rw [hout] at hfailed
        cases hfailed

/-- Of an instruction its step is seen, where it is asked for, and then the rest. -/
theorem map_report_lines (hconfig : m'.config = m.config) (pc : Nat) (i : Instruction) :
    (lines pc i m').map Event.report =
      (if m.config.traceInstructions then [stepReport pc i] else []) ++
        (reports pc i m').map Event.report := by
  rw [lines, List.map_append, hconfig, apply_ite (List.map Event.report)]
  rfl

end Shown

section Run
variable {r : Result Error Event Machine Value}

/-- The steps of a log are seen by their name. -/
theorem filter_name_step (events : List Event) :
    (events.map Event.report).filter (fun report => report.name = "interp.step") =
      (events.filter Event.isStep).map Event.report := by
  rw [List.filter_map]
  congr 2
  funext event
  rw [Function.comp_apply, Bool.eq_iff_iff, decide_eq_true_iff, name_report_eq_step_iff]

theorem filter_name_ne_step (events : List Event) :
    (events.map Event.report).filter (fun report => report.name ≠ "interp.step") =
      (events.filter fun event => !event.isStep).map Event.report := by
  rw [List.filter_map]
  congr 2
  funext event
  rw [Function.comp_apply, Bool.eq_iff_iff, decide_eq_true_iff, ne_eq, name_report_eq_step_iff,
    Bool.not_eq_true, Bool.not_eq_true']

/-- What the log recounts of a run, its reports recount. -/
theorem Recounts.reported (h : Recounts p m r) : Reported p m r where
  lined := by
    rw [h.lined, List.map_flatMap]
    apply List.flatMap_congr
    rintro ⟨⟨i, m'⟩, k⟩ hv
    obtain ⟨n, hn⟩ := List.mem_iff_getElem?.mp (List.fst_mem_of_mem_zipIdx hv)
    exact map_report_lines ((h.visited n i m').mp hn).config k i
  shown k i m' hreach := (h.told k i m' hreach).shows k
  stepped htrace := by
    rw [filter_name_step, h.stepped htrace, List.map_map]
    rfl
  failed report := by
    constructor
    · rintro ⟨hmem, hname⟩
      obtain ⟨event, hevent, rfl⟩ := List.mem_map.mp hmem
      obtain ⟨k, e, rfl⟩ := exists_eq_failed_of_name hname
      obtain ⟨i, m', hreach, hfailed⟩ := (h.failed k e).mp hevent
      exact ⟨k, i, m', e, hreach, hfailed, rfl⟩
    · rintro ⟨k, i, m', e, hreach, hfailed, rfl⟩
      exact ⟨List.mem_map.mpr ⟨_, (h.failed k e).mpr ⟨i, m', hreach, hfailed⟩, rfl⟩, rfl⟩
  failedLast k i m' e hreach hfailed := by
    obtain ⟨houtcome, hlength, before, hlog, hcalm⟩ :=
      h.failedLast k e ((h.failed k e).mpr ⟨i, m', hreach, hfailed⟩)
    refine ⟨houtcome, hlength, before.map Event.report, ?_, name_of_mem_map hcalm⟩
    rw [hlog, List.map_append, List.map_append, map_report_warnings]
    rfl
  warned report := by
    constructor
    · rintro ⟨hmem, hname⟩
      obtain ⟨event, hevent, rfl⟩ := List.mem_map.mp hmem
      obtain ⟨length, max, rfl⟩ := exists_eq_overLimit_of_name hname
      exact ⟨length, max, (h.warned length max).mp hevent, rfl⟩
    · rintro ⟨length, max, houtcome, rfl⟩
      exact ⟨List.mem_map.mpr ⟨_, (h.warned length max).mpr houtcome, rfl⟩, rfl⟩
  warnedLast length max houtcome := by
    obtain ⟨k, before, hlog, hcalm⟩ := h.warnedLast length max ((h.warned length max).mpr houtcome)
    refine ⟨k, before.map Event.report, ?_, name_of_mem_map hcalm⟩
    rw [hlog, List.map_append]
    rfl
  assigned report hmem hname := by
    obtain ⟨event, hevent, rfl⟩ := List.mem_map.mp hmem
    obtain ⟨told, rfl⟩ := exists_eq_sequence_of_name hname
    rw [h.lined] at hevent
    obtain ⟨⟨⟨i, m'⟩, k⟩, hv, hline⟩ := List.mem_flatMap.mp hevent
    have hreach : Reaches p m k i m' := (h.visited k i m').mp (List.mem_zipIdx_iff_getElem?.mp hv)
    have htold := sequence_mem_lines hline
    obtain ⟨seq, left, right, src, rfl, hok⟩ := (h.told k i m' hreach).assigned_of_mem htold
    exact ⟨k, seq, left, right, src, m', hreach, hok, List.mem_map.mpr ⟨_, List.mem_append_left _ htold, rfl⟩⟩

/-- The log of a run recounts it, event by event and as an observer reads it, and but for the steps it does
not depend on whether they are logged. -/
theorem log_recounts_run (p : Program) (m : Machine) :
    Recounts p (clearRegisters m) (run p m) ∧ Reported p (clearRegisters m) (run p m) ∧
      run p (untraced m) = withoutSteps (run p m) ∧
      (run p (untraced m)).events.map Event.report =
        ((run p m).events.map Event.report).filter fun report => report.name ≠ "interp.step" := by
  have hrecounts := recounts_run p m
  refine ⟨hrecounts, hrecounts.reported, run_untraced p m, ?_⟩
  rw [run_untraced, filter_name_ne_step]
  rfl

def tracedMachine : Machine := Machine.new ⟨3, true, ⟨some 2⟩⟩

def growing : Program :=
  [.newSeq ⟨0⟩ 1 .cyclic, .loadInt ⟨1⟩ 0, .setSlice ⟨0⟩ ⟨1⟩ ⟨1⟩ ⟨0⟩, .setSlice ⟨0⟩ ⟨1⟩ ⟨1⟩ ⟨0⟩]

/-- The second assignment is refused, which is what an observer sees last. -/
theorem log_recounts_run_growing :
    (run growing tracedMachine).events =
      [.step 0 (.newSeq ⟨0⟩ 1 .cyclic), .step 1 (.loadInt ⟨1⟩ 0),
        .step 2 (.setSlice ⟨0⟩ ⟨1⟩ ⟨1⟩ ⟨0⟩), .sequence (.selfCopied 0 0 1), .sequence (.contiguous 0 0 1),
        .step 3 (.setSlice ⟨0⟩ ⟨1⟩ ⟨1⟩ ⟨0⟩), .overLimit 4 2, .failed 3 (.overLimit 4 2)] ∧
    (run growing tracedMachine).outcome = .error (.overLimit 4 2) ∧
    (visits growing (clearRegisters tracedMachine)).length = 4 ∧
    (run growing (untraced tracedMachine)).events =
      [.sequence (.selfCopied 0 0 1), .sequence (.contiguous 0 0 1), .overLimit 4 2,
        .failed 3 (.overLimit 4 2)] ∧
    ∃ k before, (run growing tracedMachine).events.map Event.report = before ++
      [⟨.warn, "sequence length limit exceeded", [("len", .number 4), ("max", .number 2)]⟩,
        ⟨.debug, "interp.instruction_failed", [("pc", .number k),
          ("err", .text "sequence length 4 exceeds the configured maximum of 2")]⟩] := by
  obtain ⟨hrecounts, hreported, huntraced, -⟩ := log_recounts_run growing tracedMachine
  have hfailed : .failed 3 (.overLimit 4 2) ∈ (run growing tracedMachine).events := by decide
  obtain ⟨houtcome, hlength, -⟩ := hrecounts.failedLast _ _ hfailed
  obtain ⟨k, before, hlast, -⟩ := hreported.warnedLast 4 2 houtcome
  refine ⟨by decide, houtcome, hlength, ?_, k, before, hlast⟩
  rw [huntraced]
  decide

end Run

end SequenceMachine.Machine
