import SequenceMachine.Proofs.Machine.Telling

open SequenceMachine.Action (EmitsOnly emitsOnly_pure emitsOnly_state emitsOnly_ofOutcome
  emitsOnly_modify emitsOnly_emit)

namespace SequenceMachine

def Report.Unrejected (report : Report) : Prop := report.name ≠ "sequence.set_slice.rejected"

theorem Sequence.unrejected_target (t : Target) (sourceLength : Nat) :
    (t.event sourceLength).report.Unrejected := by
  cases t <;> simp [Target.event, Event.report, Report.Unrejected]

namespace Machine

variable {m : Machine}

theorem unrejected_warnings (e : Error) : ∀ event ∈ e.warnings, event.report.Unrejected := by
  cases e <;> simp [Error.warnings, Event.report, Report.Unrejected]

/-- An assignment that is carried out was not refused by its target. -/
theorem Assignment.unrejected_events (a : Assignment) (target source : Sequence Value)
    (t : Sequence.Target) : ∀ event ∈ a.events target source t, event.report.Unrejected := by
  intro event hevent
  rcases Assignment.mem_events hevent with rfl | rfl
  · simp [Event.report, Sequence.Event.report, Report.Unrejected]
  · exact Sequence.unrejected_target t source.length

/-- No instruction reports a refused assignment. -/
theorem unrejected_evaluate (i : Instruction) (m : Machine) :
    EmitsOnly (fun event => event.report.Unrejected) (evaluate i) m := by
  have htells := tells_evaluate i m
  unfold EmitsOnly
  generalize (evaluate i m).outcome = x, (evaluate i m).events = events at htells ⊢
  cases htells with
  | assigned ha hdst hsrc ht => exact Assignment.unrejected_events _ _ _ _
  | silent hi => exact fun event hevent => absurd hevent List.not_mem_nil
  | failed i e => exact unrejected_warnings e
  | fault i c => exact fun event hevent => absurd hevent List.not_mem_nil

theorem unrejected_runFrom (length pc : Nat) (p : Program) (m : Machine) :
    EmitsOnly (fun event => event.report.Unrejected) (runFrom length pc p) m := by
  induction p generalizing pc m with
  | nil => exact emitsOnly_ofOutcome _
  | cons i rest ih =>
    have htrace : EmitsOnly (fun event => event.report.Unrejected) (traceStep pc i) m := by
      refine emitsOnly_state.bind fun m' _ _ => ?_
      split
      · exact emitsOnly_emit (by simp [Event.report, Report.Unrejected])
      · exact emitsOnly_pure ()
    have hfailed (cause : Error) : (Event.failed pc cause).report.Unrejected := by
      simp [Event.report, Report.Unrejected]
    refine htrace.bind fun _ m₁ _ => ?_
    refine ((unrejected_evaluate i m₁).logError hfailed).bind fun _ m₂ _ => ?_
    cases i.returned? with
    | none => exact ih (pc + 1) m₂
    | some src => exact emitsOnly_takeOut src

/-- No run reports that a sequence refused an assignment. -/
theorem unrejected_run (p : Program) (m : Machine) :
    EmitsOnly (fun event => event.report.Unrejected) (run p) m :=
  (emitsOnly_modify clearRegisters).bind fun _ m' _ => unrejected_runFrom p.length 0 p m'

namespace Assignment

variable {a : Assignment} {seq left right src : Register} {target source : Sequence Value} {length : Nat}

namespace HeldBy

variable (ha : a.HeldBy m seq left right src)
include ha

/-- With its operands in place, an assignment is planned by the two handles and the bounds. -/
theorem plan_setSlice : m.plan (.setSlice seq left right src) = (do
    let source ← m.stored a.src
    let target ← m.stored a.dst
    m.permit (← passOn (target.assignedLength a.left a.right source.length))
    return .replace a.dst
      (← passOn (Action.stateAfter (Sequence.assign a.left a.right source.elements) target))) := by
  have hdst : m.handle seq = .ok a.dst := handle_eq_ok_iff.mpr ha.dst
  have hsrc : m.handle src = .ok a.src := handle_eq_ok_iff.mpr ha.src
  have hleft : m.int left = .ok a.left := int_eq_ok_iff.mpr ha.left
  have hright : m.int right = .ok a.right := int_eq_ok_iff.mpr ha.right
  simp only [plan, hdst, hsrc, hleft, hright, Outcome.ok_bind]

/-- With a predicted length within the limit, the heap and the instruction do the same. -/
theorem step_of_predicts (hp : a.Predicts m.heap target source length)
    (hle : length ≤ m.config.limits.ceiling) :
    ∃ t, t.length = length ∧
      (Heap.assign a.dst a.left a.right a.src m.heap).ending = (.ok (), m.heap.replace a.dst t) ∧
      m.step (.setSlice seq left right src) = (.ok (), { m with heap := m.heap.replace a.dst t }) := by
  obtain ⟨t, hafter, hlength⟩ := Sequence.exists_stateAfter_of_assignedLength hp.predicted
  have hwrite : (Heap.assign a.dst a.left a.right a.src m.heap).ending =
      (.ok (), m.heap.replace a.dst t) := by
    rw [Heap.ending_assign_of_live hp.target_live hp.source_live, hafter]
    rfl
  have hplan : m.plan (.setSlice seq left right src) = .ok (.replace a.dst t) := by
    rw [ha.plan_setSlice]
    simp [stored_eq_ok hp.source_live, stored_eq_ok hp.target_live, hp.predicted, permit_eq_ok hle,
      hafter, passOn]
  exact ⟨t, hlength, hwrite, step_of_plan hplan⟩

/-- What the heap would refuse is refused before, with the same error, whatever the limit. -/
theorem plan_of_refused {e : Heap.Error}
    (hrefused : (Heap.assign a.dst a.left a.right a.src m.heap).outcome = .error e) :
    m.plan (.setSlice seq left right src) = .error (.heap e) := by
  have hdangling {id : Handle} (hid : m.heap.get? id = none) :
      m.stored id = .error (.heap (.released id)) := by
    simp [stored, Heap.lookup, hid]
  rw [ha.plan_setSlice]
  cases hsrc : m.heap.get? a.src with
  | none =>
    rw [Heap.assign_apply_of_source_eq_none hsrc] at hrefused
    obtain rfl := Outcome.error.inj hrefused
    rw [hdangling hsrc]
    rfl
  | some source =>
    rw [stored_eq_ok hsrc, Outcome.ok_bind]
    cases hdst : m.heap.get? a.dst with
    | none =>
      rw [Heap.assign_apply_of_target_eq_none hsrc hdst] at hrefused
      split at hrefused
      · cases hrefused
      · obtain rfl := Outcome.error.inj hrefused
        rw [hdangling hdst]
        rfl
    | some target =>
      -- Both are live, so the target refuses, and then no length is predicted.
      rw [Heap.outcome_assign_of_live hdst hsrc] at hrefused
      rw [stored_eq_ok hdst, Outcome.ok_bind]
      cases hassign : (Sequence.assign a.left a.right source.elements target).outcome with
      | error cause =>
        rw [hassign] at hrefused
        obtain rfl := Outcome.error.inj hrefused
        have hpredicted : target.assignedLength a.left a.right source.length = .error cause :=
          Sequence.assignedLength_of_outcome_assign hassign
        rw [hpredicted]
        rfl
      | ok u =>
        rw [hassign] at hrefused
        cases hrefused
      | fault c =>
        rw [hassign] at hrefused
        cases hrefused

end HeldBy

end Assignment

/-- The check before an assignment is complete. Where the operands are in place, both sequences live, and
the predicted length within the limit, the heap carries the assignment out, the target gets the predicted
length, and the instruction does just that. What the heap would refuse, the instruction refuses with the
same error, whatever the limit. So no run reports a refused assignment. -/
theorem assignment_precheck_complete :
    (∀ (m : Machine) (a : Assignment) (seq left right src : Register), a.HeldBy m seq left right src →
      let written := Heap.assign a.dst a.left a.right a.src m.heap
      let result := evaluate (.setSlice seq left right src) m
      (∀ target source length, a.Predicts m.heap target source length →
        length ≤ m.config.limits.ceiling →
          written.outcome = .ok () ∧ (∃ t, written.state.get? a.dst = some t ∧ t.length = length) ∧
          result.outcome = .ok () ∧ result.state = { m with heap := written.state }) ∧
      ∀ e, written.outcome = .error e → result.outcome = .error (.heap e)) ∧
    ∀ (p : Program) (m : Machine), ∀ event ∈ (run p m).events,
      event.report.name ≠ "sequence.set_slice.rejected" := by
  refine ⟨?_, fun p m => unrejected_run p m⟩
  intro m a seq left right src ha written result
  constructor
  · intro target source length hp hle
    obtain ⟨t, hlength, hwrite, hstep⟩ := ha.step_of_predicts hp hle
    obtain ⟨houtcome, hstate⟩ := Prod.mk.inj hwrite
    have hresult : result.outcome = .ok () := by
      rw [outcome_evaluate, hstep]
    refine ⟨houtcome, ⟨t, ?_, hlength⟩, hresult, ?_⟩
    · rw [hstate]
      exact Heap.get?_replace_self hp.target_live t
    · rw [state_evaluate, hstep, hstate]
  · intro e hrefused
    rw [outcome_evaluate, step, ha.plan_of_refused hrefused, Outcome.andThen_error]

def assigningMachine : Machine :=
  ⟨⟨5, false, ⟨some 4⟩⟩, [.seq ⟨0⟩, .int 1, .int 3, .int 9, .seq ⟨1⟩],
    ⟨[some ⟨[.int 1, .int 2, .int 3], .cyclic⟩, none], [1]⟩⟩

def overwrapping : Program :=
  [.newSeq ⟨0⟩ 2 .cyclic, .loadInt ⟨1⟩ 0, .loadInt ⟨2⟩ 3, .setSlice ⟨0⟩ ⟨1⟩ ⟨2⟩ ⟨0⟩, .ret ⟨0⟩]

/-- A sequence of length 3 is assigned to two places of itself and gets the predicted length 4. More than
a turn is refused, and so is a stale handle. A run with a refused assignment reports that it failed, and
nothing else. -/
theorem assignment_precheck_complete_self :
    let a : Assignment := ⟨⟨0⟩, 1, 3, ⟨0⟩⟩
    let s : Sequence Value := ⟨[.int 1, .int 2, .int 3], .cyclic⟩
    let m := assigningMachine
    (a.HeldBy m ⟨0⟩ ⟨1⟩ ⟨2⟩ ⟨0⟩ ∧ a.Predicts m.heap s s 4 ∧ 4 ≤ m.config.limits.ceiling ∧
      ∃ t, (Heap.assign ⟨0⟩ 1 3 ⟨0⟩ m.heap).state.get? ⟨0⟩ = some t ∧ t.length = 4) ∧
    (evaluate (.setSlice ⟨0⟩ ⟨1⟩ ⟨3⟩ ⟨0⟩) m).outcome = .error (.heap (.sequence (.overWrapped 1 9 3))) ∧
    (evaluate (.setSlice ⟨0⟩ ⟨1⟩ ⟨3⟩ ⟨4⟩) m).outcome = .error (.heap (.released ⟨1⟩)) ∧
    (run overwrapping m).events = [.failed 3 (.heap (.sequence (.overWrapped 0 3 2)))] ∧
    ∀ event ∈ (run overwrapping m).events, event.report.name ≠ "sequence.set_slice.rejected" := by
  intro a s m
  obtain ⟨hchecks, hreports⟩ := assignment_precheck_complete
  have hheld : a.HeldBy m ⟨0⟩ ⟨1⟩ ⟨2⟩ ⟨0⟩ := ⟨rfl, rfl, rfl, rfl⟩
  have hpredicts : a.Predicts m.heap s s 4 := ⟨rfl, rfl, by decide⟩
  have hlimit : 4 ≤ m.config.limits.ceiling := by decide
  have hassigned := (hchecks m a ⟨0⟩ ⟨1⟩ ⟨2⟩ ⟨0⟩ hheld).1 s s 4 hpredicts hlimit
  have hwrapped : (Heap.assign ⟨0⟩ 1 9 ⟨0⟩ m.heap).outcome = .error (.sequence (.overWrapped 1 9 3)) := by
    decide
  have hstale : (Heap.assign ⟨0⟩ 1 9 ⟨1⟩ m.heap).outcome = .error (.released ⟨1⟩) := by decide
  refine ⟨⟨hheld, hpredicts, hlimit, hassigned.2.1⟩, ?_, ?_, by decide, hreports overwrapping m⟩
  · exact (hchecks m ⟨⟨0⟩, 1, 9, ⟨0⟩⟩ ⟨0⟩ ⟨1⟩ ⟨3⟩ ⟨0⟩ ⟨rfl, rfl, rfl, rfl⟩).2 _ hwrapped
  · exact (hchecks m ⟨⟨0⟩, 1, 9, ⟨1⟩⟩ ⟨0⟩ ⟨1⟩ ⟨3⟩ ⟨4⟩ ⟨rfl, rfl, rfl, rfl⟩).2 _ hstale

end Machine

end SequenceMachine
