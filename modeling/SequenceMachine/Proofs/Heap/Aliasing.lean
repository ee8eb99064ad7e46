import SequenceMachine.Proofs.Heap.History
import SequenceMachine.Proofs.Machine.Isolation

namespace SequenceMachine.Heap

open Machine (priorMachine reachable_priorMachine)

variable {h : Heap} {dst src id : Handle} {s : Sequence Value} {left right : Int}

/-- A source that is not live is reported, whatever the target is. -/
theorem outcome_assign_of_source_eq_none (hsrc : h.get? src = none) :
    (assign dst left right src h).outcome = .error (.released src) := by
  rw [assign_apply_of_source_eq_none hsrc]

/-- A target in an issued slot is looked up without a fault. -/
theorem outcome_assign_of_target_eq_none {source : Sequence Value} (hsrc : h.get? src = some source)
    (hdst : h.get? dst = none) (hissued : dst.slot < h.slots.length) :
    (assign dst left right src h).outcome = .error (.released dst) := by
  have hnear : ¬ h.slots.length < dst.slot := by omega
  rw [assign_apply_of_target_eq_none hsrc hdst, if_neg hnear]

theorem getElem?_slots_replace_of_ne (h : Heap) (s : Sequence Value) {slot : Nat} (hne : slot ≠ id.slot) :
    (h.replace id s).slots[slot]? = h.slots[slot]? := List.getElem?_set_ne hne.symm

/-- Storing a copy first and assigning that makes no difference to the target. -/
theorem assign_copy (hs : h.Sound) (hid : h.get? id = some s) (left right : Int) :
    let copied := (do assign id left right (← allocate s) : Edit Unit) h
    let aliased := assign id left right id h
    copied.outcome = aliased.outcome ∧ copied.state.get? id = aliased.state.get? id := by
  intro copied aliased
  have hcopied : copied = assign id left right ⟨h.upcoming 0⟩ (h.add s) :=
    Action.bind_apply_of_ok (allocate_apply s h)
  -- The copy is stored in a slot that was not live, so the sequence itself is still where it was.
  have hne : id.slot ≠ h.upcoming 0 := by
    intro heq
    have hnone := hs.get?_upcoming 0
    rw [← heq] at hnone
    cases hid.symm.trans hnone
  have hcopy : (h.add s).get? ⟨h.upcoming 0⟩ = some s := by
    rw [get?_add hs, if_pos rfl]
  have hkept : (h.add s).get? id = some s := by
    rw [get?_add hs, if_neg hne, hid]
  constructor
  · rw [hcopied, outcome_assign_of_live hkept hcopy, outcome_assign_of_live hid hid]
  · rw [hcopied, state_assign_of_live hkept hcopy, state_assign_of_live hid hid,
      get?_replace_self hkept, get?_replace_self hid]

/-- An assignment means the same whether or not its handles are one. The source is looked up first and the
target next, and what is not live is reported. Between live sequences the heap answers as the target does
that is assigned the elements which the source had before, and if that succeeds the target is what it then
becomes, with all other slots and their order as they were. Without success the whole heap stays as it was.
A sequence assigned to itself becomes what it becomes by the assignment of a copy. -/
theorem assign_whether_aliased {m : Machine} (hm : m.Reachable) (dst : Handle) (left right : Int)
    (src : Handle) (hissued : dst.slot < m.heap.slots.length ∨ m.heap.get? src = none) :
    let h := m.heap
    let r := assign dst left right src h
    (h.get? src = none → r.outcome = .error (.released src)) ∧
    (∀ source, h.get? src = some source →
      (h.get? dst = none → r.outcome = .error (.released dst)) ∧
      ∀ target, h.get? dst = some target →
        let written := Sequence.assign left right source.elements target
        r.outcome = written.outcome.mapError .sequence ∧
        (r.outcome = .ok () → r.state.get? dst = some written.state ∧
          (∀ slot, slot ≠ dst.slot → r.state.slots[slot]? = h.slots[slot]?) ∧
          r.state.free = h.free)) ∧
    (r.outcome ≠ .ok () → r.state = h) ∧
    ∀ s, h.get? dst = some s → dst = src →
      let copied := (do assign dst left right (← allocate s) : Edit Unit) h
      copied.outcome = r.outcome ∧ copied.state.get? dst = r.state.get? dst := by
  intro h r
  refine ⟨outcome_assign_of_source_eq_none, ?_, ?_, ?_⟩
  · intro source hsrc
    have hissued' : dst.slot < h.slots.length := by
      rcases hissued with hlt | hnone
      · exact hlt
      · cases hsrc.symm.trans hnone
    refine ⟨fun hdst => outcome_assign_of_target_eq_none hsrc hdst hissued', ?_⟩
    intro target hdst written
    have hstate : r.state = h.replace dst written.state := state_assign_of_live hdst hsrc left right
    refine ⟨outcome_assign_of_live hdst hsrc left right, fun _ => ?_⟩
    rw [hstate]
    exact ⟨get?_replace_self hdst _, fun slot hne => getElem?_slots_replace_of_ne h _ hne, rfl⟩
  · intro hfail
    apply atomic_assign dst left right src h
    intro u hok
    exact hfail hok
  · rintro s hdst rfl
    exact assign_copy hm.sound hdst left right

/-- Two sequences that hold handles, with a free slot between them: the cyclic one is assigned to a range
of itself that crosses the end of the buffer, and a copy of it is. A source or a target in the free slot is
reported, the source before the target. -/
theorem assign_whether_aliased_across_end :
    let h := priorMachine.heap
    let s : Sequence Value := ⟨[.seq ⟨1⟩, .seq ⟨7⟩], .cyclic⟩
    let t : Sequence Value := ⟨[.seq ⟨7⟩, .seq ⟨1⟩], .cyclic⟩
    priorMachine.Reachable ∧ h.get? ⟨0⟩ = some s ∧ h.get? ⟨1⟩ = none ∧
      (assign ⟨0⟩ 1 3 ⟨0⟩ h).outcome = .ok () ∧ (assign ⟨0⟩ 1 3 ⟨0⟩ h).state.get? ⟨0⟩ = some t ∧
      ((do assign ⟨0⟩ 1 3 (← allocate s) : Edit Unit) h).state.get? ⟨0⟩ = some t ∧
      (assign ⟨1⟩ 1 3 ⟨2⟩ h).outcome = .error (.released ⟨1⟩) ∧
      (assign ⟨9⟩ 1 3 ⟨1⟩ h).outcome = .error (.released ⟨1⟩) := by
  intro h s t
  have hlive : h.get? ⟨0⟩ = some s := by decide
  have hfree : h.get? ⟨1⟩ = none := by decide
  have hother : h.get? ⟨2⟩ = some ⟨[.int 5], .bounded⟩ := by decide
  have hm := reachable_priorMachine
  obtain ⟨_, hboth, _, hcopy⟩ := assign_whether_aliased hm ⟨0⟩ 1 3 ⟨0⟩ (.inl (by decide))
  obtain ⟨houtcome, hwritten⟩ := (hboth s hlive).2 s hlive
  have hok : (assign ⟨0⟩ 1 3 ⟨0⟩ h).outcome = .ok () := by
    rw [houtcome]
    decide
  have hstate : (assign ⟨0⟩ 1 3 ⟨0⟩ h).state.get? ⟨0⟩ = some t := by
    rw [(hwritten hok).1]
    decide
  refine ⟨hm, hlive, hfree, hok, hstate, ?_, ?_, ?_⟩
  · rw [(hcopy s hlive rfl).2, hstate]
  · exact ((assign_whether_aliased hm ⟨1⟩ 1 3 ⟨2⟩ (.inl (by decide))).2.1 _ hother).1 hfree
  · exact (assign_whether_aliased hm ⟨9⟩ 1 3 ⟨1⟩ (.inr hfree)).1 hfree

end SequenceMachine.Heap
