import SequenceMachine.Proofs.Machine.Cause
import SequenceMachine.Proofs.Machine.Faultless

/-!
Plans under two limits. Two machines of the same registers and heap plan the same for an instruction,
unless the lower limit cuts it off (`Curbed`). It does so exactly where the other machine plans a greater
length: what comes before the limit is asked for is common to both, and what comes after it succeeds.
-/

namespace SequenceMachine

def Instruction.sized? : Instruction → Option Register
  | .newSeq dst _ _ => some dst
  | .collect dst _ _ => some dst
  | .slice dst _ _ _ => some dst
  | .setSlice seq _ _ _ => some seq
  | .push seq _ => some seq
  | _ => none

namespace Machine

open Outcome (failsOnly_ofOption)

variable {m m' : Machine} {i : Instruction} {e : Effect} {length : Nat}

def plannedLength? (i : Instruction) (e : Effect) : Option Nat :=
  match i.sized?, e with
  | some _, .store _ s => some s.length
  | some _, .replace _ s => some s.length
  | _, _ => none

def Unrefused (e : Error) : Prop := ∀ length max, e ≠ .overLimit length max

/-- `Curbed low high size x x'`: `x'` is the plan `x`, or the refusal of a length that lies above `low`
and is planned in `x` within `high`, or is refused there too. -/
inductive Curbed (low high : Nat) (size : Effect → Option Nat) :
    Outcome Error Effect → Outcome Error Effect → Prop
  | same {x : Outcome Error Effect} (hsize : ∀ e length, x = .ok e → size e = some length → length ≤ low)
    (hlimit : ∀ length max, x ≠ .error (.overLimit length max)) : Curbed low high size x x
  | cut {e : Effect} {length : Nat} (hsize : size e = some length) (hlow : low < length)
    (hhigh : length ≤ high) : Curbed low high size (.ok e) (.error (.overLimit length low))
  | refused {length max : Nat} :
    Curbed low high size (.error (.overLimit length max)) (.error (.overLimit length low))

namespace Curbed

variable {low high : Nat} {size : Effect → Option Nat}

/-- A plan is not cut off if the length in it is within the lower limit. -/
theorem of_ok (h : ∀ length, size e = some length → length ≤ low) : Curbed low high size (.ok e) (.ok e) := by
  refine .same ?_ ?_
  · intro e' length heq hsize
    obtain rfl := Outcome.ok.inj heq
    exact h length hsize
  · intro length max heq
    cases heq

/-- What comes before the limit is asked for is common to both plans, and is no refusal of a length. -/
theorem bind {α : Type} {x : Outcome Error α} {f f' : α → Outcome Error Effect}
    (hx : x.FailsOnly Unrefused)
    (hf : ∀ a, x = .ok a → Curbed low high size (f a) (f' a)) :
    Curbed low high size (x >>= f) (x >>= f') := by
  cases x with
  | ok a => exact hf a rfl
  | error e =>
    refine .same (fun e' length heq => by cases heq) ?_
    intro length max heq
    exact hx e rfl length max (Outcome.error.inj heq)
  | fault c => exact .same (fun e' length heq => by cases heq) (fun length max heq => by cases heq)

/-- Where a permitted length comes about, the stricter limit cuts off exactly the greater lengths. -/
theorem permit {x : Outcome Error Effect} (hle : m'.config.limits.ceiling ≤ m.config.limits.ceiling)
    (hx : length ≤ m.config.limits.ceiling → ∃ e, x = .ok e ∧ size e = some length) :
    Curbed m'.config.limits.ceiling m.config.limits.ceiling size
      (m.permit length >>= fun _ => x) (m'.permit length >>= fun _ => x) := by
  unfold Machine.permit
  by_cases hlow : m'.config.limits.ceiling < length
  · -- Above the lower limit it depends on the higher one whether there is a plan to cut off.
    rw [if_pos hlow]
    by_cases hhigh : m.config.limits.ceiling < length
    · rw [if_pos hhigh]
      exact .refused
    · obtain ⟨e, rfl, hsize⟩ := hx (Nat.le_of_not_lt hhigh)
      rw [if_neg hhigh]
      exact .cut hsize hlow (Nat.le_of_not_lt hhigh)
  · have hwithin : length ≤ m'.config.limits.ceiling := Nat.le_of_not_lt hlow
    have hhigh : ¬ m.config.limits.ceiling < length := Nat.not_lt.mpr (Nat.le_trans hwithin hle)
    obtain ⟨e, rfl, hsize⟩ := hx (Nat.le_trans hwithin hle)
    rw [if_neg hlow, if_neg hhigh]
    refine of_ok fun length' hlength' => ?_
    rw [hsize] at hlength'
    obtain rfl := Option.some.inj hlength'
    exact hwithin

end Curbed

structure Twins (m m' : Machine) : Prop where
  registers : m'.registers = m.registers
  heap : m'.heap = m.heap

namespace Twins

variable (ht : Twins m m')
include ht

theorem value : m'.value = m.value := by
  funext r
  rw [Machine.value, Machine.value, ht.registers]

theorem int : m'.int = m.int := by
  funext r
  rw [Machine.int, Machine.int, ht.value]

theorem handle : m'.handle = m.handle := by
  funext r
  rw [Machine.handle, Machine.handle, ht.value]

theorem stored : m'.stored = m.stored := by
  funext id
  rw [Machine.stored, Machine.stored, ht.heap]

end Twins

section Reads
variable (m)

theorem unrefused_value (r : Register) : (m.value r).FailsOnly Unrefused :=
  failsOnly_ofOption fun _ _ _ heq => by cases heq

theorem unrefused_int (r : Register) : (m.int r).FailsOnly Unrefused :=
  (unrefused_value m r).bind fun _ _ => failsOnly_ofOption fun _ _ _ heq => by cases heq

theorem unrefused_handle (r : Register) : (m.handle r).FailsOnly Unrefused :=
  (unrefused_value m r).bind fun _ _ => failsOnly_ofOption fun _ _ _ heq => by cases heq

/-- What a sequence refuses is no refusal of a length. -/
theorem unrefused_passOn {α : Type} (x : Outcome Sequence.Error α) : (passOn x).FailsOnly Unrefused := by
  intro e h length max heq
  subst heq
  cases x <;> cases h

theorem unrefused_stored (id : Handle) : (m.stored id).FailsOnly Unrefused := by
  intro e h length max heq
  subst heq
  unfold stored at h
  cases hlookup : m.heap.lookup id with
  | ok s => rw [hlookup] at h; cases h
  | error e => rw [hlookup] at h; cases h
  | fault c => rw [hlookup] at h; cases h

end Reads

theorem exists_mapM_value {rs : List Register} (h : ∀ r ∈ rs, r.number < m.registers.length) :
    ∃ vs, rs.mapM m.value = .ok vs := by
  induction rs with
  | nil => exact ⟨[], rfl⟩
  | cons r rs ih =>
    obtain ⟨vs, hvs⟩ := ih fun q hq => h q (List.mem_cons_of_mem r hq)
    have hlt : r.number < m.registers.length := h r List.mem_cons_self
    have hv : m.value r = .ok m.registers[r.number] :=
      Outcome.ofOption_eq_ok_iff.mpr (List.getElem?_eq_getElem hlt)
    refine ⟨m.registers[r.number] :: vs, ?_⟩
    rw [List.mapM_cons, hv, hvs]
    rfl

/-- Of two machines with the same registers and heap, the one with the lower limit plans what the other
plans, or refuses the length that the other plans or refuses. -/
theorem curbed_plan (ht : Twins m m') (hle : m'.config.limits.ceiling ≤ m.config.limits.ceiling)
    (hi : ∀ r ∈ i.operands, r.number < m.registers.length) :
    Curbed m'.config.limits.ceiling m.config.limits.ceiling (plannedLength? i) (m.plan i) (m'.plan i) := by
  have hcapacity : m.config.limits.ceiling ≤ Size.capacity := m.config.limits.ceiling_le_capacity
  cases i with
  | loadInt dst val => exact .of_ok fun length h => by cases h
  | loadStr dst val => exact .of_ok fun length h => by cases h
  | newSeq dst length mode =>
    refine Curbed.permit hle fun hwithin => ?_
    refine ⟨.store dst ⟨List.replicate length .nothing, mode⟩, ?_, ?_⟩
    · rw [Sequence.replicate, if_pos (Nat.le_trans hwithin hcapacity)]
      rfl
    · exact congrArg some List.length_replicate
  | collect dst srcs mode =>
    obtain ⟨vs, hvs⟩ := exists_mapM_value fun r hr => hi r (List.mem_cons_of_mem dst hr)
    simp only [plan, ht.value]
    refine Curbed.permit hle fun _ => ⟨.store dst ⟨vs, mode⟩, ?_, ?_⟩
    · rw [hvs]
      rfl
    · exact congrArg some (length_of_mapM_eq_ok hvs)
  | len dst seq =>
    simp only [plan, ht.handle, ht.stored]
    refine .bind (unrefused_handle m seq) fun id _ => ?_
    refine .bind (unrefused_stored m id) fun s _ => ?_
    exact .of_ok fun length h => by cases h
  | index dst seq index =>
    simp only [plan, ht.int, ht.handle, ht.stored]
    refine .bind (unrefused_int m index) fun k _ => ?_
    refine .bind (unrefused_handle m seq) fun id _ => ?_
    refine .bind (unrefused_stored m id) fun s _ => ?_
    refine .bind (unrefused_passOn _) fun v _ => ?_
    exact .of_ok fun length h => by cases h
  | setIndex seq index src =>
    simp only [plan, ht.int, ht.value, ht.handle, ht.stored]
    refine .bind (unrefused_int m index) fun k _ => ?_
    refine .bind (unrefused_value m src) fun v _ => ?_
    refine .bind (unrefused_handle m seq) fun id _ => ?_
    refine .bind (unrefused_stored m id) fun s _ => ?_
    refine .bind (unrefused_passOn _) fun t _ => ?_
    exact .of_ok fun length h => by cases h
  | slice dst seq left right =>
    simp only [plan, ht.int, ht.handle, ht.stored]
    refine .bind (unrefused_int m left) fun l _ => ?_
    refine .bind (unrefused_int m right) fun r _ => ?_
    refine .bind (unrefused_handle m seq) fun id _ => ?_
    refine .bind (unrefused_stored m id) fun s _ => ?_
    refine .permit hle fun hwithin => ?_
    -- A slice of a permitted length is made: it does not fault, and it knows no error.
    obtain ⟨t, hslice⟩ | ⟨e, hslice⟩ :=
      (Sequence.faultless_slice (Nat.le_trans hwithin hcapacity)).answers_or_fails
    · refine ⟨.store dst t, ?_, congrArg some (Sequence.length_of_slice_eq_ok hslice)⟩
      rw [hslice]
      rfl
    · have hnever : Outcome.FailsOnly (fun _ : Error => False) (s.slice l r) := s.failsOnly_slice l r
      exact (hnever e hslice).elim
  | setSlice seq left right src =>
    simp only [plan, ht.int, ht.handle, ht.stored]
    refine .bind (unrefused_int m left) fun l _ => ?_
    refine .bind (unrefused_int m right) fun r _ => ?_
    refine .bind (unrefused_handle m seq) fun dst _ => ?_
    refine .bind (unrefused_handle m src) fun id _ => ?_
    refine .bind (unrefused_stored m id) fun source _ => ?_
    refine .bind (unrefused_stored m dst) fun target _ => ?_
    refine .bind (unrefused_passOn _) fun length hlength => ?_
    refine .permit hle fun _ => ?_
    -- The length was predicted, so the assignment is accepted.
    obtain ⟨t, ht, hafter⟩ :=
      Sequence.exists_stateAfter_of_assignedLength (passOn_eq_ok_iff.mp hlength)
    refine ⟨.replace dst t, ?_, congrArg some hafter⟩
    rw [ht]
    rfl
  | push seq src =>
    simp only [plan, ht.value, ht.handle, ht.stored]
    refine .bind (unrefused_value m src) fun v _ => ?_
    refine .bind (unrefused_handle m seq) fun id _ => ?_
    refine .bind (unrefused_stored m id) fun s _ => ?_
    refine .bind (Size.failsOnly_add s.length 1) fun length hlength => ?_
    obtain rfl := Size.eq_of_add_eq_ok hlength
    refine .permit hle fun _ => ⟨.replace id (s.push v), rfl, ?_⟩
    exact congrArg some List.length_append
  | release seq =>
    simp only [plan, ht.handle, ht.stored]
    refine .bind (unrefused_handle m seq) fun id _ => ?_
    refine .bind (unrefused_stored m id) fun s _ => ?_
    exact .of_ok fun length h => by cases h
  | ret src => exact .of_ok fun length h => by cases h

end Machine

end SequenceMachine
