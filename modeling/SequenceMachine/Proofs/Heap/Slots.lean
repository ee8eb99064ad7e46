import Mathlib.Data.List.Nodup
import SequenceMachine.Heap.Basic

/-!
The slots of a heap. A heap is sound if its free slots are distinct and are exactly the issued ones
without a sequence; all operations keep it so. What a sound heap answers is then told by two things:
the sequence of each slot (`get?`), and the slots that the next allocations take (`upcoming`). For each
operation there is one law for either of them.
-/

namespace SequenceMachine.Heap

variable {h : Heap} {id : Handle} {s : Sequence Value}

/-- The free slots are distinct, and are the issued slots without a sequence. -/
structure Sound (h : Heap) : Prop where
  nodup : h.free.Nodup
  mem_free_iff : ∀ slot, slot ∈ h.free ↔ h.slots[slot]? = some none

/-- The slot that is taken after `n` further allocations: the free slots first, then new ones. -/
def upcoming (h : Heap) (n : Nat) : Nat :=
  h.free.getD n (h.slots.length + (n - h.free.length))

def add (h : Heap) (s : Sequence Value) : Heap :=
  match h.free with
  | [] => { h with slots := h.slots ++ [some s] }
  | slot :: free => ⟨h.slots.set slot (some s), free⟩

def remove (h : Heap) (id : Handle) : Heap := ⟨h.slots.set id.slot none, id.slot :: h.free⟩

theorem nextSlot_eq_upcoming (h : Heap) : h.nextSlot = h.upcoming 0 := by
  unfold nextSlot upcoming
  cases h.free <;> simp

@[simp] theorem free_add (h : Heap) (s : Sequence Value) : (h.add s).free = h.free.tail := by
  unfold add
  cases h.free <;> rfl

theorem allocate_apply (s : Sequence Value) (h : Heap) :
    allocate s h = ⟨.ok ⟨h.upcoming 0⟩, h.add s, []⟩ := by
  rw [← nextSlot_eq_upcoming]
  rfl

theorem release_apply_of_eq_some (hid : h.get? id = some s) :
    release id h = ⟨.ok s, h.remove id, []⟩ := by
  simp [release, Action.update, lookup, hid, remove]

theorem release_apply_of_eq_none (hid : h.get? id = none) :
    release id h = ⟨.error (.released id), h, []⟩ := by
  simp [release, Action.update, lookup, hid]

theorem get?_eq_some_iff : h.get? id = some s ↔ h.slots[id.slot]? = some (some s) := by
  unfold get?
  rcases h.slots[id.slot]? with _ | _ | s <;> simp

/-- A handle without a sequence names a free slot, or one that was never issued. -/
theorem get?_eq_none_iff :
    h.get? id = none ↔ h.slots[id.slot]? = some none ∨ h.slots.length ≤ id.slot := by
  unfold get?
  rw [← List.getElem?_eq_none_iff]
  rcases h.slots[id.slot]? with _ | _ | s <;> simp

section Upcoming

/-- The stack of free slots is used up first, from its top. -/
theorem upcoming_of_lt {n : Nat} (hn : n < h.free.length) : h.upcoming n = h.free[n] := by
  rw [upcoming, List.getD_eq_getElem?_getD, List.getElem?_eq_getElem hn, Option.getD_some]

/-- When no slot is left on the stack, new ones are issued in their order. -/
theorem upcoming_of_le {n : Nat} (hn : h.free.length ≤ n) :
    h.upcoming n = h.slots.length + (n - h.free.length) := by
  rw [upcoming, List.getD_eq_getElem?_getD, List.getElem?_eq_none hn, Option.getD_none]

@[simp] theorem upcoming_empty (n : Nat) : empty.upcoming n = n := by
  simp [upcoming, empty]

/-- Storing a sequence takes the first of the upcoming slots. -/
theorem upcoming_add (h : Heap) (s : Sequence Value) (n : Nat) :
    (h.add s).upcoming n = h.upcoming (n + 1) := by
  unfold add upcoming
  cases hfree : h.free with
  | nil =>
    simp only [List.getD_nil, List.length_append, List.length_cons, List.length_nil]
    omega
  | cons slot free => simp

/-- The slot of a removed sequence is the next to be taken. -/
theorem upcoming_remove_zero (h : Heap) (id : Handle) : (h.remove id).upcoming 0 = id.slot := rfl

/-- A released slot is taken next, and the others after it as before. -/
theorem upcoming_remove_succ (h : Heap) (id : Handle) (n : Nat) :
    (h.remove id).upcoming (n + 1) = h.upcoming n := by
  simp [remove, upcoming]

@[simp] theorem upcoming_replace (h : Heap) (id : Handle) (s : Sequence Value) (n : Nat) :
    (h.replace id s).upcoming n = h.upcoming n := by
  simp [replace, upcoming]

end Upcoming

namespace Sound

theorem slot_lt_of_mem_free (hs : h.Sound) {slot : Nat} (hmem : slot ∈ h.free) :
    slot < h.slots.length :=
  (List.getElem?_eq_some_iff.mp ((hs.mem_free_iff slot).mp hmem)).1

/-- No slot that is still to be taken is live. -/
theorem get?_upcoming (hs : h.Sound) (n : Nat) : h.get? ⟨h.upcoming n⟩ = none := by
  rw [get?_eq_none_iff]
  rcases Nat.lt_or_ge n h.free.length with hn | hn
  · left
    rw [upcoming_of_lt hn]
    exact (hs.mem_free_iff _).mp (List.getElem_mem hn)
  · right
    rw [upcoming_of_le hn]
    exact Nat.le_add_right _ _

/-- Every slot that is not live is going to be taken. -/
theorem exists_upcoming (hs : h.Sound) (hid : h.get? id = none) : ∃ n, h.upcoming n = id.slot := by
  rcases get?_eq_none_iff.mp hid with hfree | hnew
  · -- A free slot has its place on the stack.
    obtain ⟨n, hn, hslot⟩ := List.getElem_of_mem ((hs.mem_free_iff _).mpr hfree)
    exact ⟨n, (upcoming_of_lt hn).trans hslot⟩
  · -- A slot that was not issued is reached after the stack is used up.
    refine ⟨h.free.length + (id.slot - h.slots.length), ?_⟩
    rw [upcoming_of_le (Nat.le_add_right _ _)]
    omega

/-- Different allocations take different slots. -/
theorem upcoming_injective (hs : h.Sound) : Function.Injective h.upcoming := by
  intro m n hmn
  have hlt (k : Nat) (hk : k < h.free.length) : h.upcoming k < h.slots.length := by
    rw [upcoming_of_lt hk]
    exact hs.slot_lt_of_mem_free (List.getElem_mem hk)
  have hge (k : Nat) (hk : h.free.length ≤ k) :
      h.upcoming k = h.slots.length + (k - h.free.length) := upcoming_of_le hk
  rcases Nat.lt_or_ge m h.free.length with hm | hm <;>
    rcases Nat.lt_or_ge n h.free.length with hn | hn
  · rw [upcoming_of_lt hm, upcoming_of_lt hn] at hmn
    exact hs.nodup.getElem_inj_iff.mp hmn
  · have hm' := hlt m hm
    have hn' := hge n hn
    omega
  · have hm' := hge m hm
    have hn' := hlt n hn
    omega
  · have hm' := hge m hm
    have hn' := hge n hn
    omega

/-- In a sound heap the slot of a new sequence is the only one that changes. -/
theorem getElem?_slots_add (hs : h.Sound) (s : Sequence Value) (slot : Nat) :
    (h.add s).slots[slot]? = if slot = h.upcoming 0 then some (some s) else h.slots[slot]? := by
  rw [← nextSlot_eq_upcoming, nextSlot, Heap.add]
  cases hfree : h.free with
  | nil =>
    rw [List.headD_nil, List.getElem?_append]
    by_cases hlt : slot < h.slots.length
    · rw [if_pos hlt, if_neg (by omega)]
    · rw [if_neg hlt, List.getElem?_singleton]
      by_cases heq : slot = h.slots.length
      · rw [if_pos (by omega), if_pos heq]
      · rw [if_neg (by omega), if_neg heq, List.getElem?_eq_none (by omega)]
  | cons first free =>
    have hlt : first < h.slots.length := hs.slot_lt_of_mem_free (by simp [hfree])
    rw [List.headD_cons, List.getElem?_set, if_pos hlt]
    simp only [eq_comm]

theorem empty : Heap.empty.Sound := by
  constructor
  · exact List.nodup_nil
  · intro slot
    simp [Heap.empty]

/-- A stored sequence takes its slot off the stack, so the others stay distinct. -/
theorem add (hs : h.Sound) (s : Sequence Value) : (h.add s).Sound := by
  constructor
  · rw [free_add]
    exact hs.nodup.tail
  · intro slot
    have hmem := hs.mem_free_iff slot
    have hnodup := hs.nodup
    rw [free_add, hs.getElem?_slots_add, ← nextSlot_eq_upcoming, nextSlot]
    cases hfree : h.free with
    | nil =>
      rw [hfree] at hmem
      simpa [ite_eq_iff] using fun _ => hmem
    | cons first free =>
      -- As the free slots are distinct, the first one is none of the others.
      rw [hfree, List.mem_cons] at hmem
      rw [hfree, List.nodup_cons] at hnodup
      by_cases heq : slot = first
      · simp [heq, hnodup.1]
      · simpa [heq] using hmem

/-- A released slot was in use, so it is new on the stack. -/
theorem remove (hs : h.Sound) (hid : h.get? id = some s) : (h.remove id).Sound := by
  have hlt := slot_lt_of_get?_eq_some hid
  constructor
  · -- A live slot was not free before.
    refine List.nodup_cons.mpr ⟨?_, hs.nodup⟩
    intro hmem
    have hnone := (hs.mem_free_iff _).mp hmem
    rw [get?_eq_some_iff.mp hid] at hnone
    cases hnone
  · intro slot
    have hmem := hs.mem_free_iff slot
    by_cases heq : slot = id.slot
    · simp [Heap.remove, heq, hlt]
    · simpa [Heap.remove, heq, List.getElem?_set_ne (Ne.symm heq)] using hmem

theorem replace (hs : h.Sound) (hid : h.get? id = some s) (t : Sequence Value) :
    (h.replace id t).Sound := by
  have hlt := slot_lt_of_get?_eq_some hid
  constructor
  · exact hs.nodup
  · intro slot
    have hmem := hs.mem_free_iff slot
    simp only [Heap.replace, List.getElem?_set]
    split
    · next heq =>
      subst heq
      rw [get?_eq_some_iff.mp hid] at hmem
      simpa [hlt] using hmem
    · exact hmem

end Sound

section Contents

/-- A stored sequence is found in the first of the upcoming slots. -/
theorem get?_add (hs : h.Sound) (s : Sequence Value) (id : Handle) :
    (h.add s).get? id = if id.slot = h.upcoming 0 then some s else h.get? id := by
  unfold get?
  rw [hs.getElem?_slots_add]
  split <;> rfl

theorem get?_remove_self (h : Heap) (id : Handle) : (h.remove id).get? id = none := by
  unfold get? remove
  by_cases hlt : id.slot < h.slots.length
  · simp [hlt]
  · simp [Nat.le_of_not_lt hlt]

theorem get?_remove_of_ne {other : Handle} (hne : other ≠ id) :
    (h.remove id).get? other = h.get? other := by
  have hslot : id.slot ≠ other.slot := by
    intro heq
    apply hne
    cases id
    cases other
    exact congrArg Handle.mk heq.symm
  simp [get?, remove, List.getElem?_set_ne hslot]

end Contents

section Live

/-- The live sequences are those that their handles find. -/
theorem mem_live_iff : (id, s) ∈ h.live ↔ h.get? id = some s := by
  rw [get?_eq_some_iff, live, List.mem_filterMap]
  constructor
  · rintro ⟨⟨content, slot⟩, hmem, hlive⟩
    rw [List.mem_zipIdx_iff_getElem?] at hmem
    cases content with
    | none => cases hlive
    | some t =>
      cases hlive
      exact hmem
  · intro hslot
    exact ⟨(some s, id.slot), List.mem_zipIdx_iff_getElem?.mpr hslot, rfl⟩

/-- Different places of the list of slots have different handles. -/
theorem nodup_handles_live (h : Heap) : (h.live.map Prod.fst).Nodup := by
  have hslots : (h.slots.zipIdx.map Prod.snd).Nodup := by
    rw [List.zipIdx_map_snd]
    exact List.nodup_range'
  rw [List.Nodup, List.pairwise_map] at hslots
  rw [List.Nodup, List.pairwise_map, live, List.pairwise_filterMap]
  apply hslots.imp
  rintro ⟨content, slot⟩ ⟨content', slot'⟩ hne entry hentry entry' hentry' heq
  obtain ⟨t, -, rfl⟩ := Option.map_eq_some_iff.mp hentry
  obtain ⟨t', -, rfl⟩ := Option.map_eq_some_iff.mp hentry'
  exact hne (congrArg Handle.slot heq)

theorem count_eq_length_live (h : Heap) : h.count = h.live.length := by
  rw [live, List.length_filterMap_eq_countP, count]
  conv_lhs => rw [← List.zipIdx_map_fst 0 h.slots, List.countP_map]
  apply List.countP_congr
  simp

end Live

end SequenceMachine.Heap
