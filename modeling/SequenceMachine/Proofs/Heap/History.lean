import SequenceMachine.Heap.Basic
import SequenceMachine.Proofs.Heap.Edit
import SequenceMachine.Proofs.Sequence.Calls

/-!
The heap as a map with handles for keys. A log records what each use of a heap did to the sequence of a
handle: what it stored, removed or wrote. What the heap holds after any uses is told by their log alone
(`Tracks`): the sequence of a handle by the last entry that stored or removed one there and by the
writes since then (`contents`), the stack of free slots by what was removed and not stored over since
(`vacant`). Each use changes heap and log in one of four ways (`Change`), so that what all uses keep is
proved for these.
-/

namespace SequenceMachine.Heap

variable {h : Heap} {id : Handle}

inductive Use where
  | request (r : Request)
  | overwrite (id : Handle) (s : Sequence Value)

def carryOut : Use → Edit Reply
  | .request r => perform r
  | .overwrite id s => do edit id (Action.modify fun _ => s); return .done

inductive Entry where
  | allocated (id : Handle) (s : Sequence Value)
  | released (id : Handle)
  | written (id : Handle) (f : Sequence Value → Sequence Value)

def Use.entries (h : Heap) : Use → Reply → List Entry
  | .request (.allocate s), .handle id => [.allocated id s]
  | .request (.release id), _ => [.released id]
  | .request (.assign dst left right src), _ =>
    (h.get? src).toList.map fun source =>
      .written dst fun target => (Sequence.assign left right source.elements target).state
  | .request (.call id c), _ => [.written id fun s => (Sequence.perform c s).state]
  | .overwrite id s, _ => [.written id fun _ => s]
  | _, _ => []

def record (u : Use) (h : Heap) : List Entry :=
  match (carryOut u h).outcome with
  | .ok reply => u.entries h reply
  | _ => []

structure History where
  heap : Heap
  log : List Entry

def History.next (past : History) (u : Use) : History :=
  ⟨(carryOut u past.heap).state, record u past.heap ++ past.log⟩

def history (uses : List Use) : History := uses.foldl History.next ⟨empty, []⟩

section Atomic
open SequenceMachine.Action (Atomic reads_state reads_ofOutcome)

/-- An edit that keeps a sequence where it is refused keeps the whole heap there. -/
theorem atomic_edit {β : Type} {x : Sequence.Edit Value β} (hx : Atomic x) (id : Handle) :
    Atomic (edit id x) := by
  intro h hfail
  cases hid : h.get? id with
  | none => exact congrArg Prod.snd (ending_edit_of_eq_none hid x)
  | some s =>
    have hending := ending_edit_of_eq_some hid x
    have hstate : (edit id x h).state = h.replace id (x s).state := congrArg Prod.snd hending
    have houtcome : (edit id x h).outcome = (x s).outcome.mapError .sequence :=
      congrArg Prod.fst hending
    have hkept : (x s).state = s := by
      apply hx
      intro b hb
      exact hfail b (by rw [houtcome, hb, Outcome.mapError_ok])
    rw [hstate, hkept, replace_self hid]

theorem atomic_assign (dst : Handle) (left right : Int) (src : Handle) :
    Atomic (assign dst left right src) := by
  unfold assign
  split
  · exact atomic_edit (Sequence.proper_assignSelf left right).atomic dst
  · -- Both sequences are found before anything is written, so only the last step can change the heap.
    refine reads_state.bind_atomic fun h => ?_
    refine (reads_ofOutcome _).bind_atomic fun _ => ?_
    refine (reads_ofOutcome _).bind_atomic fun found => ?_
    refine (reads_ofOutcome _).bind_atomic fun pair => ?_
    exact atomic_edit (Sequence.atomic_assign left right _) dst

/-- A use that is given no reply leaves the heap as it was. -/
theorem atomic_carryOut (u : Use) : Atomic (carryOut u) := by
  cases u with
  | request r =>
    cases r with
    | allocate s => exact (Action.atomic_update _).bind_pure _
    | get id =>
      refine reads_state.bind_atomic fun h => ?_
      exact (reads_ofOutcome _).atomic.bind_pure _
    | release id => exact (Action.atomic_update _).bind_pure _
    | assign dst left right src => exact (atomic_assign dst left right src).bind_pure _
    | call id c => exact (atomic_edit (Sequence.proper_perform c).atomic id).bind_pure _
    | count => exact reads_state.atomic.bind_pure _
    | isEmpty => exact reads_state.atomic.bind_pure _
  | overwrite id s => exact (atomic_edit (Action.atomic_modify _) id).bind_pure _

end Atomic

inductive Change (h : Heap) : Heap → List Entry → Prop
  | nothing : Change h h []
  | allocated (s : Sequence Value) : Change h (h.add s) [.allocated ⟨h.upcoming 0⟩ s]
  | released {id : Handle} {s : Sequence Value} (hid : h.get? id = some s) :
    Change h (h.remove id) [.released id]
  | written {id : Handle} {s : Sequence Value} (hid : h.get? id = some s)
    (f : Sequence Value → Sequence Value) : Change h (h.replace id (f s)) [.written id f]

/-- An edit that answers writes to a live sequence. -/
theorem change_edit {β : Type} {x : Sequence.Edit Value β} {b : β}
    (hout : (edit id x h).outcome = .ok b) :
    Change h (edit id x h).state [.written id fun s => (x s).state] := by
  cases hid : h.get? id with
  | none =>
    have houtcome : (edit id x h).outcome = .error (.released id) :=
      congrArg Prod.fst (ending_edit_of_eq_none hid x)
    rw [houtcome] at hout
    cases hout
  | some s =>
    have hstate : (edit id x h).state = h.replace id (x s).state :=
      congrArg Prod.snd (ending_edit_of_eq_some hid x)
    rw [hstate]
    exact .written hid fun s => (x s).state

theorem change_assign {dst src : Handle} {left right : Int}
    (hout : (assign dst left right src h).outcome = .ok ()) :
    Change h (assign dst left right src h).state
      ((h.get? src).toList.map fun source =>
        .written dst fun target => (Sequence.assign left right source.elements target).state) := by
  cases hsrc : h.get? src with
  | none =>
    rw [assign_apply_of_source_eq_none hsrc] at hout
    cases hout
  | some source =>
    cases hdst : h.get? dst with
    | none =>
      rw [assign_apply_of_target_eq_none hsrc hdst] at hout
      split at hout <;> cases hout
    | some target =>
      rw [state_assign_of_live hdst hsrc]
      exact .written hdst fun target => (Sequence.assign left right source.elements target).state

theorem change_perform {r : Request} {reply : Reply} (hout : (perform r h).outcome = .ok reply) :
    Change h (perform r h).state (Use.entries h (.request r) reply) := by
  cases r with
  | allocate s =>
    have happly : perform (.allocate s) h = ⟨.ok (.handle ⟨h.upcoming 0⟩), h.add s, []⟩ := by
      rw [perform, Action.bind_apply_of_ok (allocate_apply s h)]
      rfl
    rw [happly] at hout ⊢
    obtain rfl := Outcome.ok.inj hout
    exact .allocated s
  | get id =>
    have hreads : Action.Reads (perform (.get id)) := by
      refine Action.reads_state.bind fun h => ?_
      refine (Action.reads_ofOutcome (h.lookup id)).bind fun s => ?_
      exact Action.reads_ofOutcome (.ok (Reply.sequence s))
    rw [hreads h h rfl]
    exact .nothing
  | release id =>
    cases hid : h.get? id with
    | none =>
      rw [perform, Action.bind_apply_of_error (release_apply_of_eq_none hid)] at hout
      cases hout
    | some s =>
      have hstate : (perform (.release id) h).state = h.remove id := by
        rw [perform, Action.bind_apply_of_ok (release_apply_of_eq_some hid)]
        rfl
      rw [hstate]
      exact .released hid
  | assign dst left right src =>
    rw [perform, Action.outcome_bind_pure, Outcome.map_eq_ok_iff] at hout
    obtain ⟨_, hdone, _⟩ := hout
    rw [perform, Action.state_bind_pure]
    exact change_assign hdone
  | call id c =>
    rw [perform, Action.outcome_bind_pure, Outcome.map_eq_ok_iff] at hout
    obtain ⟨_, hdone, _⟩ := hout
    rw [perform, Action.state_bind_pure]
    exact change_edit hdone
  | count => exact .nothing
  | isEmpty => exact .nothing

/-- Every use changes the heap as it is logged, in one of the ways of `Change`. -/
theorem change_carryOut (u : Use) (h : Heap) : Change h (carryOut u h).state (record u h) := by
  unfold record
  -- Only a use that is given a reply can have changed anything.
  have hatomic := atomic_carryOut u h
  cases hout : (carryOut u h).outcome with
  | ok reply =>
    cases u with
    | request r => exact change_perform hout
    | overwrite id s =>
      rw [carryOut, Action.outcome_bind_pure, Outcome.map_eq_ok_iff] at hout
      obtain ⟨_, hdone, _⟩ := hout
      rw [carryOut, Action.state_bind_pure]
      exact change_edit hdone
  | error e =>
    rw [hatomic (by simp [hout])]
    exact .nothing
  | fault c =>
    rw [hatomic (by simp [hout])]
    exact .nothing

/-- The sequence of a handle by the log: each entry for the handle is carried out on what the earlier
ones left. -/
def contents (id : Handle) : List Entry → Option (Sequence Value)
  | [] => none
  | .allocated other s :: earlier => if other = id then some s else contents id earlier
  | .released other :: earlier => if other = id then none else contents id earlier
  | .written other f :: earlier =>
    if other = id then (contents id earlier).map f else contents id earlier

/-- The slots that were released and not issued again since, the last released one first. -/
def vacant : List Entry → List Nat
  | [] => []
  | .allocated id _ :: earlier => (vacant earlier).filter (· ≠ id.slot)
  | .released id :: earlier => id.slot :: vacant earlier
  | .written _ _ :: earlier => vacant earlier

structure Tracks (past : History) : Prop where
  sound : past.heap.Sound
  contents : ∀ id, past.heap.get? id = contents id past.log
  vacant : past.heap.free = vacant past.log
  issued : ∀ slot, slot < past.heap.slots.length ↔ ∃ s, .allocated ⟨slot⟩ s ∈ past.log
  released : ∀ id, .released id ∈ past.log → id.slot < past.heap.slots.length

theorem mk_eq_iff {slot : Nat} : (⟨slot⟩ : Handle) = id ↔ id.slot = slot := by
  cases id
  rw [Handle.mk.injEq, eq_comm]

/-- The new heap is told by the empty log. -/
theorem tracks_empty : Tracks ⟨empty, []⟩ where
  sound := Sound.empty
  contents id := get?_empty id
  vacant := rfl
  issued slot := by simp [empty]
  released := nofun

/-- Storing takes the top of the stack of free slots, which are distinct. -/
theorem Sound.free_add (hs : h.Sound) (s : Sequence Value) :
    (h.add s).free = h.free.filter (· ≠ h.upcoming 0) := by
  have hnodup := hs.nodup
  rw [Heap.free_add, ← nextSlot_eq_upcoming, nextSlot]
  cases hfree : h.free with
  | nil => rfl
  | cons first free =>
    rw [hfree, List.nodup_cons] at hnodup
    have hothers : ∀ slot ∈ free, decide (slot ≠ first) = true := by
      intro slot hmem
      rw [decide_eq_true_eq]
      rintro rfl
      exact hnodup.1 hmem
    rw [List.tail_cons, List.headD_cons, List.filter_cons_of_neg (by simp), List.filter_eq_self.mpr hothers]

theorem Sound.lt_length_add_iff (hs : h.Sound) (s : Sequence Value) (slot : Nat) :
    slot < (h.add s).slots.length ↔ slot = h.upcoming 0 ∨ slot < h.slots.length := by
  have hissued (slots : List (Option (Sequence Value))) : slot < slots.length ↔ slots[slot]? ≠ none := by
    rw [ne_eq, List.getElem?_eq_none_iff, Nat.not_le]
  rw [hissued, hissued, hs.getElem?_slots_add]
  by_cases heq : slot = h.upcoming 0
  · simp [heq]
  · simp [heq]

/-- Each change is told by the entry that it adds to the log. -/
theorem Tracks.change {past : History} {h' : Heap} {entries : List Entry} (ht : Tracks past)
    (hc : Change past.heap h' entries) : Tracks ⟨h', entries ++ past.log⟩ := by
  cases hc with
  | nothing => exact ht
  | allocated s =>
    refine ⟨ht.sound.add s, ?contents, ?vacant, ?issued, ?gone⟩
    case contents =>
      intro id
      simp only [get?_add ht.sound, ht.contents, List.cons_append, List.nil_append, Heap.contents,
        mk_eq_iff]
    case vacant => rw [ht.sound.free_add, ht.vacant]; rfl
    case issued =>
      intro slot
      simp only [ht.sound.lt_length_add_iff, ht.issued, List.cons_append, List.nil_append, List.mem_cons,
        Entry.allocated.injEq, Handle.mk.injEq, exists_or, exists_eq_right]
    case gone =>
      intro id hid
      have hbefore : .released id ∈ past.log := by simpa using hid
      exact (ht.sound.lt_length_add_iff s id.slot).mpr (.inr (ht.released id hbefore))
  | @released id s hid =>
    refine ⟨ht.sound.remove hid, ?contents, congrArg (id.slot :: ·) ht.vacant, ?issued, ?gone⟩
    case contents =>
      intro other
      by_cases heq : id = other
      · subst heq
        simp [Heap.contents, get?_remove_self]
      · simp [Heap.contents, heq, get?_remove_of_ne (Ne.symm heq), ht.contents]
    case issued =>
      intro slot
      simp [remove, ht.issued]
    case gone =>
      intro other hother
      have hlength : (past.heap.remove id).slots.length = past.heap.slots.length := List.length_set
      rw [hlength]
      rcases List.mem_cons.mp hother with heq | hbefore
      · obtain rfl := Entry.released.inj heq
        exact slot_lt_of_get?_eq_some hid
      · exact ht.released other hbefore
  | @written id s hid f =>
    refine ⟨ht.sound.replace hid _, ?contents, ht.vacant, ?issued, ?gone⟩
    case contents =>
      intro other
      by_cases heq : id = other
      · subst heq
        simp [Heap.contents, get?_replace_self hid, ← ht.contents, hid]
      · simp [Heap.contents, heq, get?_replace_of_ne (Ne.symm heq), ht.contents]
    case issued =>
      intro slot
      simp [replace, ht.issued]
    case gone =>
      intro other hother
      have hbefore : .released other ∈ past.log := by simpa using hother
      have hlength : (past.heap.replace id (f s)).slots.length = past.heap.slots.length :=
        List.length_set
      exact hlength ▸ ht.released other hbefore

/-- A heap that is told by its log still is after any further uses. -/
theorem Tracks.foldl {past : History} (ht : Tracks past) (uses : List Use) :
    Tracks (uses.foldl History.next past) := by
  induction uses generalizing past with
  | nil => exact ht
  | cons u uses ih => exact ih (ht.change (change_carryOut u past.heap))

/-- What a heap holds after any uses is told by their log. -/
theorem tracks_history (uses : List Use) : Tracks (history uses) := tracks_empty.foldl uses

section Log
variable {s : Sequence Value} {log later : List Entry}

def Entry.Settles (id : Handle) : Entry → Prop
  | .allocated other _ => other = id
  | .released other => other = id
  | .written _ _ => False

def Entry.rewrite (id : Handle) : Entry → Sequence Value → Sequence Value
  | .written other f, s => if other = id then f s else s
  | _, s => s

def rewritten (id : Handle) (later : List Entry) (s : Sequence Value) : Sequence Value :=
  later.foldr (Entry.rewrite id) s

theorem contents_cons {entry : Entry} (he : ¬ entry.Settles id) (log : List Entry) :
    contents id (entry :: log) = (contents id log).map (entry.rewrite id) := by
  cases entry with
  | allocated other s =>
    have hne : ¬ other = id := he
    rw [contents, if_neg hne]
    exact Option.map_id_apply.symm
  | released other =>
    have hne : ¬ other = id := he
    rw [contents, if_neg hne]
    exact Option.map_id_apply.symm
  | written other f =>
    rw [contents]
    cases contents id log with
    | none => exact ite_self none
    | some s => exact (apply_ite some (other = id) (f s) s).symm

/-- Entries that do not settle a handle only rewrite what was stored under it before. -/
theorem contents_append (hlater : ∀ entry ∈ later, ¬ entry.Settles id) (log : List Entry) :
    contents id (later ++ log) = (contents id log).map (rewritten id later) := by
  induction later with
  | nil => exact Option.map_id_apply.symm
  | cons entry later ih =>
    obtain ⟨hentry, hlater⟩ := List.forall_mem_cons.mp hlater
    rw [List.cons_append, contents_cons hentry, ih hlater, Option.map_map]
    rfl

/-- A handle has a sequence if it was issued and not settled again; it is the stored one as changed by
the writes since. -/
theorem contents_eq_some_iff :
    contents id log = some s ↔ ∃ later s₀ earlier, log = later ++ .allocated id s₀ :: earlier ∧
      (∀ entry ∈ later, ¬ entry.Settles id) ∧ s = rewritten id later s₀ := by
  constructor
  · -- The last entry that settles the handle decides, and the entries met before it only rewrite.
    intro hs
    induction log generalizing s with
    | nil => cases hs
    | cons entry log ih =>
      by_cases he : entry.Settles id
      · cases entry with
        | allocated other s₀ =>
          obtain rfl : other = id := he
          rw [contents, if_pos rfl, Option.some_inj] at hs
          exact ⟨[], s₀, log, rfl, nofun, hs.symm⟩
        | released other =>
          obtain rfl : other = id := he
          rw [contents, if_pos rfl] at hs
          cases hs
        | written other f => exact he.elim
      · rw [contents_cons he, Option.map_eq_some_iff] at hs
        obtain ⟨t, ht, rfl⟩ := hs
        obtain ⟨later, s₀, earlier, rfl, hlater, rfl⟩ := ih ht
        exact ⟨entry :: later, s₀, earlier, rfl, List.forall_mem_cons.mpr ⟨he, hlater⟩, rfl⟩
  · rintro ⟨later, s₀, earlier, rfl, hlater, rfl⟩
    rw [contents_append hlater, contents, if_pos rfl]
    rfl

/-- A free slot was released, and what was released after it is ahead of it or in use again. -/
theorem exists_of_vacant {ahead rest : List Nat} {slot : Nat} (h : vacant log = ahead ++ slot :: rest) :
    ∃ later earlier, log = later ++ .released ⟨slot⟩ :: earlier ∧
      ∀ id, .released id ∈ later → id.slot ∈ ahead ∨ id.slot ∉ vacant log := by
  -- The slots ahead differ from entry to entry, so the induction is for all of them.
  induction log generalizing ahead rest with
  | nil => simp [vacant] at h
  | cons entry log ih =>
    cases entry with
    | allocated id s =>
      -- The slots that were ahead of it and are in use again are taken out of those ahead.
      rw [vacant, List.filter_eq_append_iff] at h
      obtain ⟨front, back, hsplit, rfl, hback⟩ := h
      obtain ⟨skipped, tail, rfl, hskipped, _, rfl⟩ := List.filter_eq_cons_iff.mp hback
      rw [← List.append_assoc] at hsplit
      obtain ⟨later, earlier, rfl, hlater⟩ := ih hsplit
      refine ⟨.allocated id s :: later, earlier, rfl, ?_⟩
      intro other hother
      rcases List.mem_cons.mp hother with heq | hmem
      · cases heq
      by_cases hid : other.slot = id.slot
      · right
        simp [vacant, hid]
      · rcases hlater other hmem with hahead | hused
        · rcases List.mem_append.mp hahead with hfront | hskip
          · exact .inl (List.mem_filter.mpr ⟨hfront, decide_eq_true hid⟩)
          · exact absurd (decide_eq_true hid) (hskipped _ hskip)
        · exact .inr fun hfree => hused (List.mem_filter.mp hfree).1
    | released id =>
      rw [vacant] at h ⊢
      cases ahead with
      | nil =>
        obtain ⟨rfl, -⟩ := List.cons.inj h
        exact ⟨[], log, rfl, nofun⟩
      | cons first ahead =>
        obtain ⟨rfl, hrest⟩ := List.cons.inj h
        obtain ⟨later, earlier, rfl, hlater⟩ := ih hrest
        refine ⟨.released id :: later, earlier, rfl, ?_⟩
        intro other hother
        rcases List.mem_cons.mp hother with heq | hmem
        · obtain rfl := Entry.released.inj heq
          exact .inl List.mem_cons_self
        · rcases hlater other hmem with hahead | hused
          · exact .inl (List.mem_cons_of_mem _ hahead)
          · by_cases hid : other.slot = id.slot
            · exact .inl (hid ▸ List.mem_cons_self)
            · exact .inr fun hfree => hused (List.mem_of_ne_of_mem hid hfree)
    | written id f =>
      obtain ⟨later, earlier, rfl, hlater⟩ := ih h
      refine ⟨.written id f :: later, earlier, rfl, ?_⟩
      intro other hother
      rcases List.mem_cons.mp hother with heq | hmem
      · cases heq
      · exact hlater other hmem

end Log

section Map
variable {past : History} {s : Sequence Value}

/-- A look-up succeeds exactly if the handle was issued and not settled since. It finds what the later
entries made of the sequence that was stored. -/
theorem Tracks.lookup_eq_ok_iff (ht : Tracks past) :
    past.heap.lookup id = .ok s ↔
      ∃ later s₀ earlier, past.log = later ++ .allocated id s₀ :: earlier ∧
        (∀ entry ∈ later, ¬ entry.Settles id) ∧ s = rewritten id later s₀ := by
  rw [lookup, Outcome.ofOption_eq_ok_iff, ht.contents, contents_eq_some_iff]

/-- An issued slot is free or has a sequence, and not both. -/
theorem Sound.lt_length_iff (hs : h.Sound) (slot : Nat) :
    (slot < h.slots.length ↔ (h.get? ⟨slot⟩).isSome ∨ slot ∈ h.free) ∧
      ¬ ((h.get? ⟨slot⟩).isSome ∧ slot ∈ h.free) := by
  rw [hs.mem_free_iff, get?]
  cases hslot : h.slots[slot]? with
  | none =>
    have hbeyond := List.getElem?_eq_none_iff.mp hslot
    simp [Nat.not_lt.mpr hbeyond]
  | some content =>
    have hissued := (List.getElem?_eq_some_iff.mp hslot).1
    cases content with
    | none => simp [hissued]
    | some s => simp [hissued]

/-- The next handle is the one that was released last of those that are free, or else a new one. -/
theorem Tracks.upcoming (ht : Tracks past) :
    (∃ later earlier, past.log = later ++ .released ⟨past.heap.upcoming 0⟩ :: earlier ∧
      ∀ id, .released id ∈ later → (past.heap.get? id).isSome) ∨
    (∀ slot < past.heap.slots.length, (past.heap.get? ⟨slot⟩).isSome) ∧
      past.heap.upcoming 0 = past.heap.slots.length := by
  rw [← nextSlot_eq_upcoming, nextSlot]
  cases hfree : past.heap.free with
  | nil =>
    right
    refine ⟨fun slot hslot => ?_, rfl⟩
    exact ((ht.sound.lt_length_iff slot).1.mp hslot).resolve_right (by simp [hfree])
  | cons first free =>
    left
    have hvacant : Heap.vacant past.log = [] ++ first :: free := ht.vacant.symm.trans hfree
    obtain ⟨later, earlier, hlog, hlater⟩ := exists_of_vacant hvacant
    refine ⟨later, earlier, hlog, fun id hid => ?_⟩
    have hissued := (ht.sound.lt_length_iff id.slot).1.mp (ht.released id (hlog ▸ by simp [hid]))
    have hused : id.slot ∉ past.heap.free := by
      rw [ht.vacant]
      exact (hlater id hid).resolve_left List.not_mem_nil
    exact hissued.resolve_right hused

/-- After any uses of a new heap, the heap is a map from handles to sequences that their log tells: a
handle has a sequence if it was issued and not settled since, and then the one stored there as changed by
the later writes. Storing answers with a handle that has none: the free one that was released last, or
else the number of slots issued. Releasing answers with the sequence and concerns no other handle. A use
that is given no reply changes nothing, the count is the number of live handles, and the issued slots are
the live and the free ones. -/
theorem told_by_log (uses : List Use) :
    let h := (history uses).heap
    let log := (history uses).log
    (∀ id s, h.lookup id = .ok s ↔ ∃ later s₀ earlier, log = later ++ .allocated id s₀ :: earlier ∧
      (∀ entry ∈ later, ¬ entry.Settles id) ∧ s = rewritten id later s₀) ∧
    (∀ s, ∃ slot, (allocate s h).outcome = .ok ⟨slot⟩ ∧ h.get? ⟨slot⟩ = none ∧
      ((∃ later earlier, log = later ++ .released ⟨slot⟩ :: earlier ∧
          ∀ id, .released id ∈ later → (h.get? id).isSome) ∨
        (∀ issued < h.slots.length, (h.get? ⟨issued⟩).isSome) ∧ slot = h.slots.length)) ∧
    (∀ id s, h.get? id = some s → (release id h).outcome = .ok s ∧
      (release id h).state.get? id = none ∧
      ∀ other, other ≠ id → (release id h).state.get? other = h.get? other) ∧
    (∀ u, (∀ reply, (carryOut u h).outcome ≠ .ok reply) → (carryOut u h).state = h) ∧
    (h.count = h.live.length ∧ (h.live.map Prod.fst).Nodup ∧
      ∀ id s, (id, s) ∈ h.live ↔ h.get? id = some s) ∧
    (∀ slot, (∃ s, .allocated ⟨slot⟩ s ∈ log) ↔ slot < h.slots.length) ∧
    h.free.Nodup ∧
    ∀ slot, (slot < h.slots.length ↔ (h.get? ⟨slot⟩).isSome ∨ slot ∈ h.free) ∧
      ¬ ((h.get? ⟨slot⟩).isSome ∧ slot ∈ h.free) := by
  intro h log
  have ht : Tracks (history uses) := tracks_history uses
  refine ⟨fun id s => ht.lookup_eq_ok_iff, ?stored, ?removed, fun u => atomic_carryOut u h,
    ⟨count_eq_length_live h, nodup_handles_live h, fun id s => mem_live_iff⟩,
    fun slot => (ht.issued slot).symm, ht.sound.nodup, ht.sound.lt_length_iff⟩
  case stored =>
    intro s
    refine ⟨h.upcoming 0, ?_, ht.sound.get?_upcoming 0, ht.upcoming⟩
    rw [allocate_apply]
  case removed =>
    intro id s hid
    rw [release_apply_of_eq_some hid]
    exact ⟨rfl, get?_remove_self h id, fun other hne => get?_remove_of_ne hne⟩

def storingTwice : List Use :=
  [.request (.allocate (.ofList [.int 1])), .request (.allocate (.ofList [.int 2, .int 3])),
    .request (.release ⟨0⟩), .request (.release ⟨0⟩), .request (.allocate (.empty .cyclic)),
    .request (.assign ⟨0⟩ 0 0 ⟨1⟩), .request (.release ⟨1⟩)]

/-- The slot that is live is not released by what is released next, and a dangling release fails. -/
theorem told_by_log_storingTwice :
    let h := (history storingTwice).heap
    (h.get? ⟨0⟩ = some ⟨[.int 2, .int 3], .cyclic⟩ ∧
      ∀ reply, (carryOut (.request (.release ⟨1⟩)) h).outcome ≠ .ok reply) ∧
    (release ⟨0⟩ h).outcome = .ok ⟨[.int 2, .int 3], .cyclic⟩ ∧
    (carryOut (.request (.release ⟨1⟩)) h).state = h := by
  intro h
  have hlive : h.get? ⟨0⟩ = some ⟨[.int 2, .int 3], .cyclic⟩ := by decide
  have hfails : ∀ reply, (carryOut (.request (.release ⟨1⟩)) h).outcome ≠ .ok reply := nofun
  obtain ⟨_, _, hrelease, hfailed, _⟩ := told_by_log storingTwice
  exact ⟨⟨hlive, hfails⟩, (hrelease _ _ hlive).1, hfailed _ hfails⟩

end Map

end SequenceMachine.Heap
