import SequenceMachine.Proofs.Emission
import SequenceMachine.Proofs.Machine.Curb

open SequenceMachine.Action (EmitsOnly TellsErrors emitsOnly_of_silent emitsOnly_pure emitsOnly_state
  emitsOnly_ofOutcome emitsOnly_modify emitsOnly_update)
open SequenceMachine.Outcome (FailsOnly failsOnly_ok failsOnly_error failsOnly_mapM)

namespace SequenceMachine

def Instruction.assigns : Instruction → Bool
  | .setSlice _ _ _ _ => true
  | _ => false

namespace Sequence

variable {α : Type} {P : Event → Prop} {s : Sequence α} {left right : Int}

theorem emitsOnly_set (index : Int) (value : α) : EmitsOnly P (set index value) s := by
  apply emitsOnly_of_silent
  rw [set_apply]
  cases s.position index <;> rfl

/-- The copy of a sequence that is assigned to itself is reported first. -/
theorem events_assignSelf (left right : Int) (s : Sequence α) :
    (assignSelf left right s).events =
      .selfCopied left right s.length :: (assign left right s.elements s).events := by
  simp [assignSelf, Action.bind_apply, Result.after]

end Sequence

namespace Heap

variable {β : Type} {P : Sequence.Event → Prop} {h : Heap} {id : Handle}

/-- An edit of a stored sequence emits what it does on the sequence alone. -/
theorem emitsOnly_edit {x : Sequence.Edit Value β} (hx : ∀ s, h.get? id = some s → EmitsOnly P x s) :
    EmitsOnly P (edit id x) h := by
  cases hid : h.get? id with
  | none => exact emitsOnly_of_silent (events_edit_of_eq_none hid x)
  | some s =>
    unfold EmitsOnly
    rw [events_edit_of_eq_some hid]
    exact hx s hid

/-- Between live slots an assignment that has a target is told by the target, after the copy of a source
that is its own target. -/
theorem events_assign {dst src : Handle} {target source : Sequence Value} {left right : Int}
    {t : Sequence.Target} (hdst : h.get? dst = some target) (hsrc : h.get? src = some source)
    (ht : target.target left right source.length = .ok t) :
    (assign dst left right src h).events =
      (if dst = src then [.selfCopied left right target.length] else []) ++ [t.event source.length] := by
  have hevents : (Sequence.assign left right source.elements target).events = [t.event source.length] := by
    rw [Sequence.assign_apply_of_target ht]
    rfl
  by_cases heq : dst = src
  · subst heq
    obtain rfl := Option.some.inj (hdst.symm.trans hsrc)
    rw [assign_self_apply, events_edit_of_eq_some hdst, Sequence.events_assignSelf, hevents, if_pos rfl]
    rfl
  · rw [assign_apply_of_ne heq hdst hsrc, events_edit_of_eq_some hdst, hevents, if_neg heq]
    rfl

end Heap

namespace Machine

variable {P : Event → Prop} {m : Machine} {α : Type}

section Emissions

theorem emitsOnly_onHeap {x : Heap.Edit α} (hx : EmitsOnly (fun event => P (.sequence event)) x m.heap) :
    EmitsOnly P (onHeap x) m := hx.focus

theorem emitsOnly_read (r : Register) : EmitsOnly P (read r) m :=
  emitsOnly_state.bind fun _ _ _ => emitsOnly_ofOutcome _

theorem emitsOnly_readInt (r : Register) : EmitsOnly P (readInt r) m :=
  (emitsOnly_read r).bind fun _ _ _ => emitsOnly_ofOutcome _

theorem emitsOnly_readHandle (r : Register) : EmitsOnly P (readHandle r) m :=
  (emitsOnly_read r).bind fun _ _ _ => emitsOnly_ofOutcome _

theorem emitsOnly_mapM_read (rs : List Register) : EmitsOnly P (rs.mapM read : Eval (List Value)) m := by
  induction rs generalizing m with
  | nil => exact emitsOnly_pure []
  | cons r rs ih =>
    rw [List.mapM_cons]
    exact (emitsOnly_read r).bind fun v _ _ => ih.bind fun vs _ _ => emitsOnly_pure (v :: vs)

theorem emitsOnly_sequence (id : Handle) : EmitsOnly P (sequence id) m :=
  emitsOnly_onHeap (emitsOnly_state.bind fun _ _ _ => emitsOnly_ofOutcome _)

theorem emitsOnly_write (r : Register) (v : Value) : EmitsOnly P (write r v) m := emitsOnly_update _

theorem emitsOnly_allocateInto (dst : Register) (s : Sequence Value) :
    EmitsOnly P (allocateInto dst s) m :=
  (emitsOnly_onHeap (emitsOnly_update _)).bind fun _ _ _ => emitsOnly_write dst _

theorem emitsOnly_takeOut (r : Register) : EmitsOnly P (takeOut r) m :=
  (emitsOnly_read r).bind fun v _ _ => (emitsOnly_write r .nothing).bind fun _ _ _ => emitsOnly_pure v

end Emissions

def Error.warnings : Error → List Event
  | .overLimit length max => [.overLimit length max]
  | _ => []

theorem warnings_of_unrefused {e : Error} (he : Unrefused e) : e.warnings = [] := by
  cases e with
  | overLimit length max => exact absurd rfl (he length max)
  | _ => rfl

def Warns (x : Eval α) (m : Machine) : Prop := TellsErrors Error.warnings x m

section Warnings

/-- A silent step that refuses no length has nothing to warn of. -/
theorem warns_of_silent {x : Eval α} {y : Outcome Error α} {m' : Machine}
    (hx : EmitsOnly (fun _ => False) x m) (hending : (x m).ending = (y, m')) (hy : y.FailsOnly Unrefused) :
    Warns x m := by
  refine Action.tellsErrors_of_silent hx.silent fun e he => warnings_of_unrefused (hy e ?_)
  rw [← he]
  exact (congrArg Prod.fst hending).symm

/-- A sequence of steps warns once, where it ends. -/
theorem Warns.bind {β : Type} {x : Eval α} {f : α → Eval β} (hx : Warns x m)
    (hf : ∀ a m', (x m).ending = (.ok a, m') → Warns (f a) m') : Warns (x >>= f) m :=
  TellsErrors.bind hx hf

theorem warns_pure (a : α) : Warns (pure a) m := Action.tellsErrors_pure a

theorem warns_ofOutcome {x : Outcome Error α} (hx : x.FailsOnly Unrefused) :
    Warns (Action.ofOutcome x) m := warns_of_silent (emitsOnly_ofOutcome x) rfl hx

theorem warns_read (r : Register) : Warns (read r) m :=
  warns_of_silent (emitsOnly_read r) (ending_read r m) (unrefused_value m r)

theorem warns_readInt (r : Register) : Warns (readInt r) m :=
  warns_of_silent (emitsOnly_readInt r) (ending_readInt r m) (unrefused_int m r)

theorem warns_readHandle (r : Register) : Warns (readHandle r) m :=
  warns_of_silent (emitsOnly_readHandle r) (ending_readHandle r m) (unrefused_handle m r)

theorem warns_sequence (id : Handle) : Warns (sequence id) m :=
  warns_of_silent (emitsOnly_sequence id) (ending_sequence id m) (unrefused_stored m id)

theorem warns_mapM_read (rs : List Register) : Warns (rs.mapM read : Eval (List Value)) m := by
  refine warns_of_silent (emitsOnly_mapM_read rs) (ending_mapM_read rs m) ?_
  exact failsOnly_mapM fun r _ => unrefused_value m r

theorem unrefused_put (m : Machine) (r : Register) (v : Value) : (m.put r v).1.FailsOnly Unrefused := by
  unfold put
  split
  · exact failsOnly_ok ()
  · exact failsOnly_error fun length max heq => by cases heq

theorem warns_write (r : Register) (v : Value) : Warns (write r v) m :=
  warns_of_silent (emitsOnly_write r v) (ending_write r v m) (unrefused_put m r v)

theorem warns_allocateInto (dst : Register) (s : Sequence Value) : Warns (allocateInto dst s) m :=
  warns_of_silent (emitsOnly_allocateInto dst s) (ending_allocateInto dst s m) (unrefused_put _ dst _)

/-- The heap refuses no length. -/
theorem warns_onHeap {x : Heap.Edit α} (hx : EmitsOnly (fun _ => False) x m.heap) : Warns (onHeap x) m := by
  refine warns_of_silent (emitsOnly_onHeap hx) (ending_onHeap x m) ?_
  intro e he length max heq
  subst heq
  cases hout : (x m.heap).ending.1 with
  | ok a => rw [hout] at he; cases he
  | error cause => rw [hout] at he; cases he
  | fault c => rw [hout] at he; cases he

/-- The check of a length is the one step that has something to warn of. -/
theorem warns_withinLimit (length : Nat) : Warns (withinLimit length) m := by
  unfold Warns TellsErrors withinLimit
  rw [Action.bind_apply_of_ok (Action.state_apply m), keepWithin]
  split <;> rfl

end Warnings

namespace Assignment

variable {a : Assignment} {seq left right src : Register}

/-- The registers decide which assignment is meant. -/
theorem HeldBy.unique {a' : Assignment} (h : a.HeldBy m seq left right src)
    (h' : a'.HeldBy m seq left right src) : a = a' := by
  have hdst : a.dst = a'.dst := Value.seq.inj (Option.some.inj (h.dst.symm.trans h'.dst))
  have hleft : a.left = a'.left := Value.int.inj (Option.some.inj (h.left.symm.trans h'.left))
  have hright : a.right = a'.right := Value.int.inj (Option.some.inj (h.right.symm.trans h'.right))
  have hsrc : a.src = a'.src := Value.seq.inj (Option.some.inj (h.src.symm.trans h'.src))
  cases a
  cases a'
  exact Assignment.mk.injEq .. ▸ ⟨hdst, hleft, hright, hsrc⟩

theorem warns_prepare : Warns (prepare seq left right src) m := by
  refine (warns_readInt left).bind fun l _ _ => ?_
  refine (warns_readInt right).bind fun r _ _ => ?_
  refine (warns_readHandle seq).bind fun dst _ _ => ?_
  refine (warns_readHandle src).bind fun id _ _ => ?_
  refine (warns_sequence id).bind fun source _ _ => ?_
  refine (warns_sequence dst).bind fun target _ _ => ?_
  refine (warns_ofOutcome (unrefused_passOn _)).bind fun length _ _ => ?_
  exact (warns_withinLimit length).bind fun _ _ _ => warns_pure _

def events (a : Assignment) (target source : Sequence Value) (t : Sequence.Target) : List Event :=
  (if a.dst = a.src then [.sequence (.selfCopied a.left a.right target.length)] else []) ++
    [.sequence (t.event source.length)]

theorem mem_events {target source : Sequence Value} {t : Sequence.Target} {event : Event}
    (h : event ∈ a.events target source t) :
    event = .sequence (.selfCopied a.left a.right target.length) ∨
      event = .sequence (t.event source.length) := by
  rcases List.mem_append.mp h with hcopied | htold
  · split at hcopied
    · exact .inl (List.mem_singleton.mp hcopied)
    · cases hcopied
  · exact .inr (List.mem_singleton.mp htold)

/-- An assignment that has a target is carried out, and tells of its copy and its target. -/
theorem perform_apply {target source : Sequence Value} {t : Sequence.Target}
    (hdst : m.heap.get? a.dst = some target) (hsrc : m.heap.get? a.src = some source)
    (ht : target.target a.left a.right source.length = .ok t) :
    (a.perform m).outcome = .ok () ∧ (a.perform m).events = a.events target source t := by
  constructor
  · have houtcome := Heap.outcome_assign_of_live hdst hsrc a.left a.right
    rw [Sequence.assign_apply_of_target ht] at houtcome
    exact congrArg (Outcome.mapError Error.heap) houtcome
  · have hevents := Heap.events_assign hdst hsrc ht
    refine (congrArg (List.map Event.sequence) hevents).trans ?_
    rw [List.map_append, apply_ite (List.map Event.sequence)]
    rfl

end Assignment

/-- `Tells m i x events`: on the machine `m`, an instruction `i` that ends in `x` emits these events. -/
inductive Tells (m : Machine) : Instruction → Outcome Error Unit → List Event → Prop
  | assigned {seq left right src : Register} {a : Assignment} {target source : Sequence Value}
    {t : Sequence.Target} (ha : a.HeldBy m seq left right src) (hdst : m.heap.get? a.dst = some target)
    (hsrc : m.heap.get? a.src = some source) (ht : target.target a.left a.right source.length = .ok t) :
    Tells m (.setSlice seq left right src) (.ok ()) (a.events target source t)
  | silent {i : Instruction} (hi : i.assigns = false) :
    Tells m i (.ok ()) []
  | failed (i : Instruction) (e : Error) : Tells m i (.error e) e.warnings
  | fault (i : Instruction) (c : Fault) : Tells m i (.fault c) []

theorem Warns.tells {i : Instruction} {x : Eval Unit} (hx : Warns x m)
    (hi : i.assigns = false) : Tells m i (x m).outcome (x m).events := by
  have hevents : (x m).events = Action.reported Error.warnings (x m).outcome := hx
  rw [hevents]
  cases (x m).outcome with
  | ok u => exact .silent hi
  | error e => exact .failed i e
  | fault c => exact .fault i c

/-- Apart from assignments, instructions warn of the length they refuse and are silent else. -/
theorem warns_evaluate {i : Instruction} (hi : i.assigns = false)
    (m : Machine) : Warns (evaluate i) m := by
  cases i with
  | loadInt dst val => exact warns_write dst _
  | loadStr dst val => exact warns_write dst _
  | newSeq dst length mode =>
    refine (warns_withinLimit length).bind fun _ _ _ => ?_
    refine (warns_ofOutcome ?_).bind fun made _ _ => warns_allocateInto dst made
    exact Sequence.failsOnly_replicate length _ mode
  | collect dst srcs mode =>
    refine (warns_withinLimit srcs.length).bind fun _ _ _ => ?_
    exact (warns_mapM_read srcs).bind fun vs _ _ => warns_allocateInto dst ⟨vs, mode⟩
  | len dst seq =>
    refine (warns_readHandle seq).bind fun id _ _ => ?_
    exact (warns_sequence id).bind fun s _ _ => warns_write dst _
  | index dst seq index =>
    refine (warns_readInt index).bind fun k _ _ => ?_
    refine (warns_readHandle seq).bind fun id _ _ => ?_
    refine (warns_sequence id).bind fun s _ _ => ?_
    exact (warns_ofOutcome (unrefused_passOn _)).bind fun v _ _ => warns_write dst v
  | setIndex seq index src =>
    refine (warns_readInt index).bind fun k _ _ => ?_
    refine (warns_read src).bind fun v _ _ => ?_
    refine (warns_readHandle seq).bind fun id _ _ => ?_
    exact warns_onHeap (Heap.emitsOnly_edit fun s _ => Sequence.emitsOnly_set k v)
  | slice dst seq left right =>
    refine (warns_readInt left).bind fun l _ _ => ?_
    refine (warns_readInt right).bind fun r _ _ => ?_
    refine (warns_readHandle seq).bind fun id _ _ => ?_
    refine (warns_sequence id).bind fun s _ _ => ?_
    refine (warns_withinLimit _).bind fun _ _ _ => ?_
    refine (warns_ofOutcome ?_).bind fun made _ _ => warns_allocateInto dst made
    exact s.failsOnly_slice l r
  | setSlice seq left right src => cases hi
  | push seq src =>
    refine (warns_read src).bind fun v _ _ => ?_
    refine (warns_readHandle seq).bind fun id _ _ => ?_
    refine (warns_sequence id).bind fun s _ _ => ?_
    refine (warns_ofOutcome (Size.failsOnly_add _ 1)).bind fun length _ _ => ?_
    refine (warns_withinLimit length).bind fun _ _ _ => ?_
    exact warns_onHeap (Heap.emitsOnly_edit fun s _ => emitsOnly_modify _)
  | release seq =>
    refine (warns_readHandle seq).bind fun id _ _ => ?_
    exact (warns_onHeap (emitsOnly_update _)).bind fun _ _ _ => warns_pure ()
  | ret src => exact warns_pure ()

/-- An assignment tells what its outcome says, refused or carried out. -/
theorem tells_setSlice (seq left right src : Register) (m : Machine) :
    Tells m (.setSlice seq left right src) (evaluate (.setSlice seq left right src) m).outcome
      (evaluate (.setSlice seq left right src) m).events := by
  have hwarns : Warns (Assignment.prepare seq left right src) m := Assignment.warns_prepare
  rw [Assignment.evaluate_setSlice]
  -- The preparation emits nothing but the warning, and the performance cannot fail after it.
  cases hprepared : Assignment.prepare seq left right src m with
  | mk outcome m' events =>
    have hevents : events = Action.reported Error.warnings outcome := by
      unfold Warns TellsErrors at hwarns
      rwa [hprepared] at hwarns
    cases outcome with
    | ok a =>
      have hending : (Assignment.prepare seq left right src m).ending = (.ok a, m') := by
        rw [hprepared]
        rfl
      -- What is checked first decides that the assignment is accepted.
      obtain ⟨rfl, ha, target, source, length, hp⟩ := Assignment.held_of_prepare hending
      obtain ⟨t, ht, -⟩ := Outcome.bind_eq_ok_iff.mp hp.predicted
      obtain ⟨hdone, htold⟩ := Assignment.perform_apply hp.target_live hp.source_live ht
      rw [Action.bind_apply_of_ok hprepared]
      change Tells m' _ (a.perform m').outcome (events ++ (a.perform m').events)
      rw [hdone, htold, hevents]
      exact .assigned ha hp.target_live hp.source_live ht
    | error e =>
      rw [Action.bind_apply_of_error hprepared, hevents]
      exact .failed _ e
    | fault c =>
      rw [Action.bind_apply_of_fault hprepared, hevents]
      exact .fault _ c

/-- Each instruction tells what it did. -/
theorem tells_evaluate (i : Instruction) (m : Machine) :
    Tells m i (evaluate i m).outcome (evaluate i m).events := by
  cases i with
  | setSlice seq left right src => exact tells_setSlice seq left right src m
  | _ => exact (warns_evaluate rfl m).tells rfl

end Machine

end SequenceMachine
