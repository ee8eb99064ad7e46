import SequenceMachine.Proofs.Heap.Slots
import SequenceMachine.Proofs.Sequence.Atomic

namespace SequenceMachine.Heap

variable {β : Type} {h : Heap} {id : Handle} {s : Sequence Value}

theorem replace_self (hid : h.get? id = some s) : h.replace id s = h := by
  have hlt := slot_lt_of_get?_eq_some hid
  have hslot := get?_eq_some_iff.mp hid
  rw [List.getElem?_eq_getElem hlt, Option.some_inj] at hslot
  rw [replace, ← hslot, List.set_getElem_self]

/-- An edit under a handle without a sequence is refused and changes nothing. -/
theorem ending_edit_of_eq_none (hid : h.get? id = none) (x : Sequence.Edit Value β) :
    (edit id x h).ending = (.error (.released id), h) := by
  simp [edit, Action.bind_apply, Action.liftM_eq_ofOutcome, lookup, hid]

/-- An edit of a live sequence ends as it does on the sequence alone, and the result stands in the same
slot. -/
theorem ending_edit_of_eq_some (hid : h.get? id = some s) (x : Sequence.Edit Value β) :
    (edit id x h).ending = ((x s).ending.1.mapError .sequence, h.replace id (x s).ending.2) := by
  simp [edit, Action.bind_apply, lookup, hid, Action.focus, Result.ending]

theorem events_edit_of_eq_none (hid : h.get? id = none) (x : Sequence.Edit Value β) :
    (edit id x h).events = [] := by
  simp [edit, Action.bind_apply, Action.liftM_eq_ofOutcome, lookup, hid]

theorem events_edit_of_eq_some (hid : h.get? id = some s) (x : Sequence.Edit Value β) :
    (edit id x h).events = (x s).events := by
  simp [edit, Action.bind_apply, lookup, hid, Action.focus]

/-- An atomic edit replaces the sequence if it succeeds, and changes nothing if it does not. -/
theorem ending_edit_of_atomic {x : Sequence.Edit Value Unit} (hx : Action.Atomic x) (h : Heap)
    (id : Handle) :
    (edit id x h).ending = (h.lookup id).andThen h fun s =>
      ((Action.stateAfter x s).mapError .sequence).andThen h fun s' => (.ok (), h.replace id s') := by
  cases hid : h.get? id with
  | none =>
    rw [ending_edit_of_eq_none hid, lookup, hid]
    rfl
  | some s =>
    have hkeep := hx s
    rw [ending_edit_of_eq_some hid, lookup, hid, Outcome.ofOption_some, Outcome.andThen_ok,
      Action.stateAfter, Result.ending]
    dsimp only
    cases hout : (x s).outcome with
    | ok _ => rfl
    | error e =>
      rw [hkeep (by simp [hout]), replace_self hid]
      rfl
    | fault c =>
      rw [hkeep (by simp [hout]), replace_self hid]
      rfl

section Assign
variable {dst src : Handle} {target source : Sequence Value} {left right : Int}

/-- A sequence that is both target and source is edited in place, without a second slot. -/
theorem assign_self_apply (id : Handle) (left right : Int) (h : Heap) :
    assign id left right id h = edit id (Sequence.assignSelf left right) h := by
  rw [assign, if_pos rfl]

/-- Between two live slots the source is read, and its elements are assigned. -/
theorem assign_apply_of_ne (hne : dst ≠ src) (hdst : h.get? dst = some target)
    (hsrc : h.get? src = some source) :
    assign dst left right src h = edit dst (Sequence.assign left right source.elements) h := by
  have hissued : ¬ h.slots.length < max dst.slot src.slot := by
    have hdstLt := slot_lt_of_get?_eq_some hdst
    have hsrcLt := slot_lt_of_get?_eq_some hsrc
    omega
  have hboth : (h.lookupTwo dst src : Outcome Error _) = .ok (some (target, source)) := by
    rw [lookupTwo, if_neg hne, if_neg hissued, hdst, hsrc]
    rfl
  simp [assign, hne, Action.bind_apply, lookup, hsrc, hboth]

/-- The source is looked up first. -/
theorem assign_apply_of_source_eq_none (hsrc : h.get? src = none) :
    assign dst left right src h = ⟨.error (.released src), h, []⟩ := by
  unfold assign
  split
  · next heq =>
    subst heq
    simp [edit, Action.bind_apply, lookup, hsrc]
  · simp [Action.bind_apply, lookup, hsrc]

/-- A target that was never issued may be too far off to be looked up together with the source. -/
theorem assign_apply_of_target_eq_none (hsrc : h.get? src = some source) (hdst : h.get? dst = none) :
    assign dst left right src h =
      if h.slots.length < dst.slot then ⟨.fault (.slotBeyondEnd dst.slot h.slots.length), h, []⟩
      else ⟨.error (.released dst), h, []⟩ := by
  have hne : dst ≠ src := by
    intro heq
    rw [heq, hsrc] at hdst
    cases hdst
  have hsrcLt := slot_lt_of_get?_eq_some hsrc
  by_cases hfar : h.slots.length < dst.slot
  · have hmax : max dst.slot src.slot = dst.slot := by omega
    have hboth : (h.lookupTwo dst src : Outcome Error _) =
        .fault (.slotBeyondEnd dst.slot h.slots.length) := by
      rw [lookupTwo, if_neg hne, hmax, if_pos hfar]
    rw [if_pos hfar]
    simp [assign, hne, Action.bind_apply, lookup, hsrc, hboth]
  · have hissued : ¬ h.slots.length < max dst.slot src.slot := by omega
    have hboth : (h.lookupTwo dst src : Outcome Error _) = .ok none := by
      rw [lookupTwo, if_neg hne, if_neg hissued, hdst]
      rfl
    rw [if_neg hfar]
    simp [assign, hne, Action.bind_apply, lookup, hsrc, hboth]

/-- Between live slots an assignment is one of the source's elements to the target, also where the slots
are one: the copy that is assigned then has the elements of the target itself. -/
theorem ending_assign_eq_edit (hdst : h.get? dst = some target) (hsrc : h.get? src = some source)
    (left right : Int) :
    (assign dst left right src h).ending =
      (edit dst (Sequence.assign left right source.elements) h).ending := by
  by_cases heq : dst = src
  · subst heq
    obtain rfl := Option.some.inj (hdst.symm.trans hsrc)
    have hself := Sequence.ending_assignSelf left right target
    rw [assign_self_apply, ending_edit_of_eq_some hdst, ending_edit_of_eq_some hdst, hself]
  · rw [assign_apply_of_ne heq hdst hsrc]

/-- Between live slots an assignment does to the target what the elements of the source do to it, whether or
not the two slots are one. -/
theorem ending_assign_of_live (hdst : h.get? dst = some target) (hsrc : h.get? src = some source)
    (left right : Int) :
    (assign dst left right src h).ending =
      ((Action.stateAfter (Sequence.assign left right source.elements) target).mapError
        .sequence).andThen h fun s => (.ok (), h.replace dst s) := by
  have hedit := ending_edit_of_atomic (Sequence.atomic_assign left right source.elements) h dst
  rw [lookup, hdst, Outcome.ofOption_some, Outcome.andThen_ok] at hedit
  rw [ending_assign_eq_edit hdst hsrc, hedit]

theorem outcome_assign_of_live (hdst : h.get? dst = some target) (hsrc : h.get? src = some source)
    (left right : Int) :
    (assign dst left right src h).outcome =
      (Sequence.assign left right source.elements target).outcome.mapError .sequence := by
  have hending := ending_assign_eq_edit hdst hsrc left right
  rw [ending_edit_of_eq_some hdst] at hending
  exact congrArg Prod.fst hending

theorem state_assign_of_live (hdst : h.get? dst = some target) (hsrc : h.get? src = some source)
    (left right : Int) :
    (assign dst left right src h).state =
      h.replace dst (Sequence.assign left right source.elements target).state := by
  have hending := ending_assign_eq_edit hdst hsrc left right
  rw [ending_edit_of_eq_some hdst] at hending
  exact congrArg Prod.snd hending

end Assign

end SequenceMachine.Heap
