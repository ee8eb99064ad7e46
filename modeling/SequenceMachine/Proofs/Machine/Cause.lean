import SequenceMachine.Proofs.Machine.Course

namespace SequenceMachine

namespace Outcome

variable {ε α β : Type} {P : ε → Prop}

def FailsOnly (P : ε → Prop) (x : Outcome ε α) : Prop := ∀ e, x = .error e → P e

theorem failsOnly_ok (a : α) : (ok a : Outcome ε α).FailsOnly P := by
  intro e h
  cases h

theorem failsOnly_error {e : ε} (he : P e) : (error e : Outcome ε α).FailsOnly P := by
  intro e' h
  obtain rfl := Outcome.error.inj h
  exact he

theorem failsOnly_fault (c : Fault) : (fault c : Outcome ε α).FailsOnly P := by
  intro e h
  cases h

theorem failsOnly_ofOption {e : ε} {x : Option α} (he : x = none → P e) : (ofOption e x).FailsOnly P := by
  cases x with
  | none => exact failsOnly_error (he rfl)
  | some a => exact failsOnly_ok a

/-- Each step may fail only with the property, after the answers of the steps before it. -/
theorem FailsOnly.bind {x : Outcome ε α} {f : α → Outcome ε β} (hx : x.FailsOnly P)
    (hf : ∀ a, x = .ok a → (f a).FailsOnly P) : (x >>= f).FailsOnly P := by
  cases x with
  | ok a => exact hf a rfl
  | error e => exact failsOnly_error (hx e rfl)
  | fault c => exact failsOnly_fault c

theorem failsOnly_mapM {f : α → Outcome ε β} {as : List α} (hf : ∀ a ∈ as, (f a).FailsOnly P) :
    (as.mapM f).FailsOnly P := by
  induction as with
  | nil => exact failsOnly_ok []
  | cons a as ih =>
    rw [List.mapM_cons]
    refine (hf a List.mem_cons_self).bind fun _ _ => ?_
    refine (ih fun b hb => hf b (List.mem_cons_of_mem a hb)).bind fun _ _ => ?_
    exact failsOnly_ok _

end Outcome

open Outcome (failsOnly_ok failsOnly_error failsOnly_fault failsOnly_ofOption)

/-! Primitives that report no error: where they give no answer they fault. -/
section Primitives
variable {α ε : Type} {P : ε → Prop}

theorem Size.failsOnly_add (a b : Nat) : (add a b : Outcome ε Nat).FailsOnly P := by
  unfold add
  split
  · exact failsOnly_ok _
  · exact failsOnly_fault _

theorem Index.failsOnly_wrap (index : Int) (length : Nat) :
    (wrap index length : Outcome ε Nat).FailsOnly P := by
  unfold wrap
  split
  · exact failsOnly_fault _
  · exact failsOnly_ok _

theorem Sequence.failsOnly_replicate (length : Nat) (fill : α) (mode : Mode) :
    (replicate length fill mode : Outcome ε (Sequence α)).FailsOnly P := by
  unfold replicate
  split
  · exact failsOnly_ok _
  · exact failsOnly_fault _

theorem Sequence.failsOnly_slice (s : Sequence α) (left right : Int) :
    (s.slice left right : Outcome ε (Sequence α)).FailsOnly P := by
  have hcopied (start stop : Nat) : (s.copyRange start stop : Outcome ε (List α)).FailsOnly P := by
    unfold copyRange
    split
    · exact failsOnly_ok _
    · exact failsOnly_fault _
  unfold slice
  split
  · exact failsOnly_ok _
  · cases s.mode with
    | cyclic =>
      dsimp only
      split
      · exact failsOnly_ok _
      · refine (Index.failsOnly_wrap left s.length).bind fun start _ => ?_
        split
        · exact failsOnly_ok _
        · exact failsOnly_fault _
    | bounded =>
      dsimp only
      split
      · exact failsOnly_ok _
      · exact (hcopied _ _).bind fun copied _ => failsOnly_ok _

end Primitives

namespace Machine

/-- `Cause m i e`: in the state `m` it is with the instruction `i` as the error `e` says. -/
inductive Cause (m : Machine) (i : Instruction) : Error → Prop
  | noRegister {r : Register} (hr : r ∈ i.operands) (hmissing : m.registers.length ≤ r.number) :
    Cause m i (.noRegister r)
  | kindMismatch {r : Register} {v : Value} {expected : Value.Kind} (hr : r ∈ i.operands)
    (hv : m.value r = .ok v) (hkind : v.kind ≠ expected) : Cause m i (.kindMismatch expected v.kind)
  | released {r : Register} {id : Handle} (hr : r ∈ i.operands) (hheld : m.handle r = .ok id)
    (hid : m.heap.get? id = none) : Cause m i (.heap (.released id))
  | refused (cause : Sequence.Error) : Cause m i (.heap (.sequence cause))
  | overLimit {length : Nat} (hlength : m.config.limits.ceiling < length) :
    Cause m i (.overLimit length m.config.limits.ceiling)

variable {m m' : Machine} {i : Instruction} {r : Register} {e : Error}

section Reads
variable (hr : r ∈ i.operands)

include hr in
theorem cause_value : (m.value r).FailsOnly (Cause m i) :=
  failsOnly_ofOption fun hnone => .noRegister hr (List.getElem?_eq_none_iff.mp hnone)

include hr in
theorem cause_int : (m.int r).FailsOnly (Cause m i) := by
  refine (cause_value hr).bind fun v hv => failsOnly_ofOption fun hnone => ?_
  apply Cause.kindMismatch hr hv
  intro hkind
  cases v with
  | int k => cases hnone
  | _ => cases hkind

include hr in
theorem cause_handle : (m.handle r).FailsOnly (Cause m i) := by
  refine (cause_value hr).bind fun v hv => failsOnly_ofOption fun hnone => ?_
  apply Cause.kindMismatch hr hv
  intro hkind
  cases v with
  | seq id => cases hnone
  | _ => cases hkind

include hr in
/-- A handle that an operand holds and under which nothing is live is the cause of the look-up's error. -/
theorem cause_stored {id : Handle} (hheld : m.handle r = .ok id) :
    (m.stored id).FailsOnly (Cause m i) := by
  unfold stored Heap.lookup
  cases hid : m.heap.get? id with
  | none => exact failsOnly_error (.released hr hheld hid)
  | some s => exact failsOnly_ok s

end Reads

theorem cause_permit (length : Nat) : (m.permit length).FailsOnly (Cause m i) := by
  unfold permit
  split
  · next hlt => exact failsOnly_error (.overLimit hlt)
  · exact failsOnly_ok ()

theorem cause_passOn {α : Type} (x : Outcome Sequence.Error α) : (passOn x).FailsOnly (Cause m i) := by
  cases x with
  | ok a => exact failsOnly_ok a
  | error cause => exact failsOnly_error (.refused cause)
  | fault c => exact failsOnly_fault c

/-- Every error of a plan has its cause in the state that the plan was looked for in. -/
theorem cause_plan (m : Machine) (i : Instruction) : (m.plan i).FailsOnly (Cause m i) := by
  -- The checks of each instruction, one after the other.
  cases i with
  | loadInt dst val => exact failsOnly_ok _
  | loadStr dst val => exact failsOnly_ok _
  | newSeq dst length mode =>
    refine (cause_permit length).bind fun _ _ => ?_
    exact (Sequence.failsOnly_replicate length _ mode).bind fun _ _ => failsOnly_ok _
  | collect dst srcs mode =>
    refine (cause_permit srcs.length).bind fun _ _ => ?_
    refine (Outcome.failsOnly_mapM fun r hr => ?_).bind fun _ _ => failsOnly_ok _
    exact cause_value (List.mem_cons_of_mem dst hr)
  | len dst seq =>
    refine (cause_handle (by simp [Instruction.operands])).bind fun id hid => ?_
    exact (cause_stored (by simp [Instruction.operands]) hid).bind fun _ _ => failsOnly_ok _
  | index dst seq index =>
    refine (cause_int (by simp [Instruction.operands])).bind fun k _ => ?_
    refine (cause_handle (by simp [Instruction.operands])).bind fun id hid => ?_
    refine (cause_stored (by simp [Instruction.operands]) hid).bind fun s _ => ?_
    exact (cause_passOn (s.get k)).bind fun _ _ => failsOnly_ok _
  | setIndex seq index src =>
    refine (cause_int (by simp [Instruction.operands])).bind fun k _ => ?_
    refine (cause_value (by simp [Instruction.operands])).bind fun v _ => ?_
    refine (cause_handle (by simp [Instruction.operands])).bind fun id hid => ?_
    refine (cause_stored (by simp [Instruction.operands]) hid).bind fun s _ => ?_
    exact (cause_passOn _).bind fun _ _ => failsOnly_ok _
  | slice dst seq left right =>
    refine (cause_int (by simp [Instruction.operands])).bind fun l _ => ?_
    refine (cause_int (by simp [Instruction.operands])).bind fun r _ => ?_
    refine (cause_handle (by simp [Instruction.operands])).bind fun id hid => ?_
    refine (cause_stored (by simp [Instruction.operands]) hid).bind fun s _ => ?_
    refine (cause_permit (s.sliceLength l r)).bind fun _ _ => ?_
    exact (s.failsOnly_slice l r).bind fun _ _ => failsOnly_ok _
  | setSlice seq left right src =>
    refine (cause_int (by simp [Instruction.operands])).bind fun l _ => ?_
    refine (cause_int (by simp [Instruction.operands])).bind fun r _ => ?_
    refine (cause_handle (by simp [Instruction.operands])).bind fun dst hdst => ?_
    refine (cause_handle (by simp [Instruction.operands])).bind fun id hid => ?_
    refine (cause_stored (by simp [Instruction.operands]) hid).bind fun source _ => ?_
    refine (cause_stored (by simp [Instruction.operands]) hdst).bind fun target _ => ?_
    refine (cause_passOn _).bind fun length _ => ?_
    refine (cause_permit length).bind fun _ _ => ?_
    exact (cause_passOn _).bind fun _ _ => failsOnly_ok _
  | push seq src =>
    refine (cause_value (by simp [Instruction.operands])).bind fun v _ => ?_
    refine (cause_handle (by simp [Instruction.operands])).bind fun id hid => ?_
    refine (cause_stored (by simp [Instruction.operands]) hid).bind fun s _ => ?_
    refine (Size.failsOnly_add s.length 1).bind fun length _ => ?_
    exact (cause_permit length).bind fun _ _ => failsOnly_ok _
  | release seq =>
    refine (cause_handle (by simp [Instruction.operands])).bind fun id hid => ?_
    exact (cause_stored (by simp [Instruction.operands]) hid).bind fun _ _ => failsOnly_ok _
  | ret src => exact failsOnly_ok _

/-- To write a register fails only where it does not exist. -/
theorem missing_of_put {v : Value} (h : (m.put r v).1 = .error e) :
    e = .noRegister r ∧ m.registers.length ≤ r.number := by
  rcases Nat.lt_or_ge r.number m.registers.length with hlt | hge
  · rw [put_of_lt hlt] at h
    cases h
  · rw [put_of_le hge] at h
    exact ⟨(Outcome.error.inj h).symm, hge⟩

/-- An effect that was planned can fail only in loading its register. -/
theorem cause_commit {f : Effect} (hplan : Plans m i f) (h : (m.commit f).1 = .error e) :
    Cause m i e := by
  cases f with
  | load dst v =>
    obtain ⟨rfl, hmissing⟩ := missing_of_put h
    exact .noRegister (hplan.loaded_mem rfl) hmissing
  | store dst s =>
    -- The sequence is stored first, which adds no register.
    obtain ⟨rfl, hmissing⟩ := missing_of_put h
    exact .noRegister (hplan.loaded_mem rfl) hmissing
  | none | replace | release => cases h

/-- An instruction that fails has the cause that its error names. -/
theorem cause_of_step (h : (m.step i).1 = .error e) : Cause m i e := by
  unfold step at h
  cases hplan : m.plan i with
  | error e' =>
    rw [hplan] at h
    obtain rfl := Outcome.error.inj h
    exact cause_plan m i _ hplan
  | fault c =>
    rw [hplan] at h
    cases h
  | ok f =>
    rw [hplan, Outcome.andThen_ok] at h
    exact cause_commit (plans_of_plan_eq_ok hplan) h

end Machine

end SequenceMachine
