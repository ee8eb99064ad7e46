import SequenceMachine.Proofs.Heap.Slots
import SequenceMachine.Proofs.Renaming

/-!
Heaps that mirror each other. A heap `h'` mirrors a heap `h` under new names for its slots, on top of the
sequences that others left in `rest`: each slot of `h` is found under its new name with the renamed
sequence, the slots that the next allocations take correspond, and a slot that has no name in `h` holds
what it holds in `rest`. Storing, replacing and removing corresponding sequences keeps all of this.
-/

namespace SequenceMachine.Heap

/-- `h'` is `h` under the names that `ρ` gives to its slots, next to what `rest` holds elsewhere. -/
structure Mirrors (ρ : Renaming) (rest h h' : Heap) : Prop where
  sound : h.Sound
  sound' : h'.Sound
  get?_handle : ∀ id, h'.get? (ρ.handle id) = (h.get? id).map ρ.sequence
  upcoming : ∀ n, h'.upcoming n = ρ.slot (h.upcoming n)
  get?_rest : ∀ id, (∀ slot, ρ.slot slot ≠ id.slot) → h'.get? id = rest.get? id

namespace Mirrors

variable {ρ : Renaming} {rest h h' : Heap} {id : Handle} {s : Sequence Value}

/-- A heap mirrors the empty one on top of what it holds, under the slots that it is going to take. -/
theorem of_sound (hs : h.Sound) :
    Mirrors (Renaming.ofSlots h.upcoming hs.upcoming_injective) h Heap.empty h := by
  constructor
  · exact Sound.empty
  · exact hs
  · intro id
    -- No upcoming slot is live, as none of the empty heap is.
    rw [get?_empty, Option.map_none]
    exact hs.get?_upcoming id.slot
  · intro n
    rw [upcoming_empty]
    rfl
  · intro id _
    rfl

/-- A live sequence is found under the new name of its handle, with its own handles renamed. -/
theorem get?_handle_of_eq_some (hm : Mirrors ρ rest h h') (hid : h.get? id = some s) :
    h'.get? (ρ.handle id) = some (ρ.sequence s) := by
  rw [hm.get?_handle, hid, Option.map_some]

/-- Storing corresponding sequences keeps the heaps mirrored, since the slots that they take correspond. -/
theorem add (hm : Mirrors ρ rest h h') (s : Sequence Value) :
    Mirrors ρ rest (h.add s) (h'.add (ρ.sequence s)) := by
  have hfirst : h'.upcoming 0 = ρ.slot (h.upcoming 0) := hm.upcoming 0
  constructor
  · exact hm.sound.add s
  · exact hm.sound'.add _
  · intro id
    rw [get?_add hm.sound', get?_add hm.sound, hfirst]
    by_cases hid : id.slot = h.upcoming 0
    · have hslot : (ρ.handle id).slot = ρ.slot (h.upcoming 0) := congrArg ρ.slot hid
      rw [if_pos hslot, if_pos hid, Option.map_some]
    · -- Another slot has another name.
      have hslot : ¬ (ρ.handle id).slot = ρ.slot (h.upcoming 0) := by
        intro heq
        exact hid (ρ.slot_injective heq)
      rw [if_neg hslot, if_neg hid]
      exact hm.get?_handle id
  · intro n
    rw [upcoming_add, upcoming_add]
    exact hm.upcoming (n + 1)
  · intro id hid
    have hslot : ¬ id.slot = h'.upcoming 0 := by
      intro heq
      exact hid (h.upcoming 0) (hfirst ▸ heq.symm)
    rw [get?_add hm.sound', if_neg hslot]
    exact hm.get?_rest id hid

theorem ne_handle {other : Handle} (hother : ∀ slot, ρ.slot slot ≠ other.slot) (id : Handle) :
    other ≠ ρ.handle id := by
  intro heq
  exact hother id.slot (congrArg Handle.slot heq).symm

theorem replace (hm : Mirrors ρ rest h h') (hid : h.get? id = some s) (t : Sequence Value) :
    Mirrors ρ rest (h.replace id t) (h'.replace (ρ.handle id) (ρ.sequence t)) := by
  have hid' := hm.get?_handle_of_eq_some hid
  constructor
  · exact hm.sound.replace hid t
  · exact hm.sound'.replace hid' _
  · intro other
    by_cases heq : other = id
    · rw [heq, get?_replace_self hid, get?_replace_self hid', Option.map_some]
    · have hne : ρ.handle other ≠ ρ.handle id := fun h => heq (ρ.handle_injective h)
      rw [get?_replace_of_ne heq, get?_replace_of_ne hne]
      exact hm.get?_handle other
  · intro n
    rw [upcoming_replace, upcoming_replace]
    exact hm.upcoming n
  · intro other hother
    rw [get?_replace_of_ne (ne_handle hother id)]
    exact hm.get?_rest other hother

/-- Corresponding slots are released together, and are the next ones to be taken on both sides. -/
theorem remove (hm : Mirrors ρ rest h h') (hid : h.get? id = some s) :
    Mirrors ρ rest (h.remove id) (h'.remove (ρ.handle id)) := by
  have hid' := hm.get?_handle_of_eq_some hid
  constructor
  · exact hm.sound.remove hid
  · exact hm.sound'.remove hid'
  · intro other
    by_cases heq : other = id
    · rw [heq, get?_remove_self, get?_remove_self, Option.map_none]
    · have hne : ρ.handle other ≠ ρ.handle id := fun h => heq (ρ.handle_injective h)
      rw [get?_remove_of_ne heq, get?_remove_of_ne hne]
      exact hm.get?_handle other
  · -- The removed slot comes first in both heaps.
    intro n
    cases n with
    | zero =>
      rw [upcoming_remove_zero, upcoming_remove_zero]
      rfl
    | succ n =>
      rw [upcoming_remove_succ, upcoming_remove_succ]
      exact hm.upcoming n
  · intro other hother
    rw [get?_remove_of_ne (ne_handle hother id)]
    exact hm.get?_rest other hother

end Mirrors

end SequenceMachine.Heap
