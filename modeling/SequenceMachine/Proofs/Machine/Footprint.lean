import SequenceMachine.Proofs.Machine.Composition
import SequenceMachine.Proofs.Machine.Dangling
import SequenceMachine.Proofs.Machine.Failure

/-!
Footprints: what a successful instruction leaves as it was. An instruction loads at most one register, and
the heap differs after it under at most one handle, whichever registers and elements hold that handle
(`Footprint`). No instruction gives a live sequence another mode, so over a run a sequence keeps the mode
that it was stored with until it is released.
-/

namespace SequenceMachine

def Instruction.loaded? : Instruction → Option Register
  | .loadInt dst _ => some dst
  | .loadStr dst _ => some dst
  | .newSeq dst _ _ => some dst
  | .collect dst _ _ => some dst
  | .len dst _ => some dst
  | .index dst _ _ => some dst
  | .slice dst _ _ _ => some dst
  | _ => none

/-- A slice is bounded, whatever the mode of the sequence. -/
theorem Sequence.mode_of_slice_eq_ok {α ε : Type} {s t : Sequence α} {left right : Int}
    (h : (s.slice left right : Outcome ε (Sequence α)) = .ok t) : t.mode = .bounded := by
  unfold slice at h
  split at h
  · obtain rfl := Outcome.ok.inj h
    rfl
  · split at h <;> split at h
    · obtain rfl := Outcome.ok.inj h
      rfl
    · obtain ⟨start, _, h⟩ := Outcome.bind_eq_ok_iff.mp h
      split at h
      · obtain rfl := Outcome.ok.inj h
        rfl
      · cases h
    · obtain rfl := Outcome.ok.inj h
      rfl
    · obtain ⟨copied, _, h⟩ := Outcome.bind_eq_ok_iff.mp h
      obtain rfl := Outcome.ok.inj h
      rfl

namespace Heap

variable {h h' : Heap} {id other : Handle} {s t : Sequence Value} {mode : Mode}

def mode? (h : Heap) (id : Handle) : Option Mode := (h.get? id).map Sequence.mode

/-- Under one handle the heap `h` holds `before` and the heap `h'` holds `after`. Under all others they
hold the same. -/
structure Differs (h h' : Heap) (id : Handle) (before after : Option (Sequence Value)) : Prop where
  before : h.get? id = before
  after : h'.get? id = after
  others : ∀ other, other ≠ id → h'.get? other = h.get? other

theorem differs_add (hs : h.Sound) (s : Sequence Value) :
    h.Differs (h.add s) ⟨h.upcoming 0⟩ none (some s) := by
  refine ⟨hs.get?_upcoming 0, ?_, ?_⟩
  · rw [get?_add hs, if_pos rfl]
  · intro other hne
    rw [get?_add hs, if_neg]
    intro hslot
    exact hne (congrArg Handle.mk hslot)

theorem differs_replace (hid : h.get? id = some s) (t : Sequence Value) :
    h.Differs (h.replace id t) id (some s) (some t) :=
  ⟨hid, get?_replace_self hid t, fun _ hne => get?_replace_of_ne hne t⟩

theorem differs_remove (hid : h.get? id = some s) : h.Differs (h.remove id) id (some s) none :=
  ⟨hid, get?_remove_self h id, fun _ hne => get?_remove_of_ne hne⟩

theorem Differs.mode?_of_ne {before after : Option (Sequence Value)} (hd : h.Differs h' id before after)
    (hne : other ≠ id) : h'.mode? other = h.mode? other := by
  rw [mode?, mode?, hd.others other hne]

theorem Differs.mode?_of_added (hd : h.Differs h' id none (some s)) (hmode : h.mode? other = some mode) :
    h'.mode? other = some mode := by
  rw [hd.mode?_of_ne, hmode]
  rintro rfl
  rw [mode?, hd.before] at hmode
  cases hmode

theorem Differs.mode?_of_changed (hd : h.Differs h' id (some s) (some t)) (ht : t.mode = s.mode)
    (other : Handle) : h'.mode? other = h.mode? other := by
  by_cases heq : other = id
  · rw [heq, mode?, mode?, hd.before, hd.after, Option.map_some, Option.map_some, ht]
  · exact hd.mode?_of_ne heq

end Heap

namespace Machine

variable {p : Program} {m m' m₁ m₂ : Machine} {i : Instruction} {e : Effect} {k l : Nat} {id : Handle}
  {mode : Mode}

def Stores (m m' : Machine) (dst : Register) (mode : Mode) : Prop :=
  ∃ id s, s.mode = mode ∧ m.heap.Differs m'.heap id none (some s) ∧
    m'.registers[dst.number]? = some (.seq id)

def Changes (m m' : Machine) (seq : Register) (s t : Sequence Value) : Prop :=
  ∃ id, m.handle seq = .ok id ∧ t.mode = s.mode ∧ m.heap.Differs m'.heap id (some s) (some t)

def HeapFootprint (m m' : Machine) : Instruction → Prop
  | .loadInt _ _ => m'.heap = m.heap
  | .loadStr _ _ => m'.heap = m.heap
  | .newSeq dst _ mode => Stores m m' dst mode
  | .collect dst _ mode => Stores m m' dst mode
  | .len _ _ => m'.heap = m.heap
  | .index _ _ _ => m'.heap = m.heap
  | .setIndex seq index src =>
    ∃ s k p v, m.int index = .ok k ∧ s.position k = .ok p ∧ m.value src = .ok v ∧
      Changes m m' seq s { s with elements := s.elements.set p v }
  | .slice dst _ _ _ => Stores m m' dst .bounded
  | .setSlice seq _ _ _ => ∃ s t, Changes m m' seq s t
  | .push seq src =>
    ∃ s v, m.value src = .ok v ∧ Changes m m' seq s { s with elements := s.elements ++ [v] }
  | .release seq => ∃ id s, m.handle seq = .ok id ∧ m.heap.Differs m'.heap id (some s) none
  | .ret _ => m'.heap = m.heap

/-- What an instruction leaves of the state `m`, where it succeeds and leaves `m'`. -/
structure Footprint (m : Machine) (i : Instruction) (m' : Machine) : Prop where
  config : m'.config = m.config
  length : m'.registers.length = m.registers.length
  registers : ∀ r, i.loaded? ≠ some r → m'.registers[r.number]? = m.registers[r.number]?
  heap : HeapFootprint m m' i

section Step

/-- Which register is loaded does not depend on the state. -/
theorem Plans.loaded?_eq (h : Plans m i e) : e.loaded? = i.loaded? := by
  cases h <;> rfl

theorem getElem?_registers_put {dst r : Register} (v : Value) (hne : dst ≠ r) :
    (m.put dst v).2.registers[r.number]? = m.registers[r.number]? := by
  unfold put
  split
  · apply List.getElem?_set_ne
    intro hnumber
    exact hne (congrArg Register.mk hnumber)
  · rfl

/-- An effect writes no register but the one that it loads. -/
theorem getElem?_registers_commit {r : Register} (hr : e.loaded? ≠ some r) :
    (m.commit e).2.registers[r.number]? = m.registers[r.number]? := by
  cases e with
  | none | replace | release => rfl
  | load dst v => exact getElem?_registers_put v fun heq => hr (congrArg some heq)
  | store dst s => exact getElem?_registers_put _ fun heq => hr (congrArg some heq)

theorem stores_commit {dst : Register} (hs : m.heap.Sound) (s : Sequence Value)
    (hok : (m.commit (.store dst s)).1 = .ok ()) : Stores m (m.commit (.store dst s)).2 dst s.mode := by
  have hlt : dst.number < m.registers.length := by
    apply Nat.lt_of_not_le
    intro hle
    rw [commit_store_of_le hle] at hok
    cases hok
  have hput : m.commit (.store dst s) = _ := put_of_lt (m := { m with heap := m.heap.add s }) hlt _
  refine ⟨⟨m.heap.upcoming 0⟩, s, rfl, ?_, ?_⟩
  · rw [heap_commit]
    exact Heap.differs_add hs s
  · rw [hput]
    exact List.getElem?_set_self hlt

theorem changes_commit {seq : Register} {s t : Sequence Value} (hid : m.handle seq = .ok id)
    (hs : m.heap.get? id = some s) (hmode : t.mode = s.mode) :
    Changes m (m.commit (.replace id t)).2 seq s t :=
  ⟨id, hid, hmode, Heap.differs_replace hs t⟩

/-- The effect of a rule leaves the heap as the footprint of its instruction says. -/
theorem heapFootprint_commit (hs : m.heap.Sound) (h : Plans m i e) (hok : (m.commit e).1 = .ok ()) :
    HeapFootprint m (m.commit e).2 i := by
  -- Each rule says which live sequence the handle names, and what is put in its place keeps its mode.
  cases h with
  | loadInt | loadStr | len | index => exact heap_put m _ _
  | newSeq dst mode hlength => exact stores_commit hs _ hok
  | collect dst mode hlength hvs => exact stores_commit hs _ hok
  | setIndex hk hv hid hlive ht =>
    obtain ⟨p, hp, rfl⟩ := Sequence.exists_position_of_stateAfter_set ht
    exact ⟨_, _, p, _, hk, hp, hv, changes_commit hid hlive rfl⟩
  | slice dst hl hr hid hlive hlength ht =>
    have hstores := stores_commit hs _ hok
    rwa [Sequence.mode_of_slice_eq_ok ht] at hstores
  | setSlice hl hr hdst hid hsource htarget hlength hle ht =>
    obtain ⟨found, _, rfl⟩ := Sequence.exists_target_of_stateAfter_assign ht
    exact ⟨_, _, changes_commit hdst htarget rfl⟩
  | push hv hid hlive hlength => exact ⟨_, _, hv, changes_commit hid hlive rfl⟩
  | release hid hlive => exact ⟨_, _, hid, Heap.differs_remove hlive⟩
  | ret src => rfl

/-- Every instruction that succeeds leaves its footprint. -/
theorem footprint_step (hs : m.heap.Sound) (hok : (m.step i).1 = .ok ()) :
    Footprint m i (m.step i).2 := by
  obtain ⟨e, hplan, hcommit⟩ := exists_plan_of_step_ok hok
  have hrule := plans_of_plan_eq_ok hplan
  refine ⟨config_step m i, length_registers_step m i, ?_, ?_⟩
  · intro r hr
    rw [step_of_plan hplan]
    apply getElem?_registers_commit
    rwa [hrule.loaded?_eq]
  · rw [step_of_plan hplan]
    exact heapFootprint_commit hs hrule hcommit

end Step

section Mode

theorem Stores.mode?_of_live {dst : Register} {new : Mode} (h : Stores m m' dst new)
    (hid : m.heap.mode? id = some mode) : m'.heap.mode? id = some mode := by
  obtain ⟨_, _, _, hdiffers, _⟩ := h
  exact hdiffers.mode?_of_added hid

/-- After a change every handle finds the mode that it found before. -/
theorem Changes.mode?_eq {seq : Register} {s t : Sequence Value} (h : Changes m m' seq s t)
    (id : Handle) : m'.heap.mode? id = m.heap.mode? id := by
  obtain ⟨_, _, hmode, hdiffers⟩ := h
  exact hdiffers.mode?_of_changed hmode id

/-- An instruction keeps the mode of each live sequence, or releases it. -/
theorem Footprint.mode?_or_release (h : Footprint m i m') (hid : m.heap.mode? id = some mode) :
    m'.heap.mode? id = some mode ∨
      ∃ seq, i = .release seq ∧ m.handle seq = .ok id ∧ m'.heap.get? id = none := by
  have hheap := h.heap
  cases i with
  | loadInt | loadStr | len | index | ret =>
    left
    rw [show m'.heap = m.heap from hheap, hid]
  | newSeq | collect | slice =>
    left
    exact Stores.mode?_of_live hheap hid
  | setIndex =>
    obtain ⟨s, k, p, v, _, _, _, hchanges⟩ := hheap
    left
    rw [hchanges.mode?_eq, hid]
  | setSlice =>
    obtain ⟨s, t, hchanges⟩ := hheap
    left
    rw [hchanges.mode?_eq, hid]
  | push =>
    obtain ⟨s, v, _, hchanges⟩ := hheap
    left
    rw [hchanges.mode?_eq, hid]
  | release seq =>
    obtain ⟨target, s, htarget, hdiffers⟩ := hheap
    by_cases heq : id = target
    · subst heq
      exact .inr ⟨seq, rfl, htarget, hdiffers.after⟩
    · exact .inl ((hdiffers.mode?_of_ne heq).trans hid)

/-- An instruction that fails may leave a sequence that it made, and changes no other. -/
theorem mode?_step_of_ne_ok (hs : m.heap.Sound) (hfail : (m.step i).1 ≠ .ok ())
    (hid : m.heap.mode? id = some mode) : (m.step i).2.heap.mode? id = some mode := by
  rcases step_of_ne_ok hfail with hkeep | ⟨dst, s, hstrands⟩
  · rw [hkeep, hid]
  · rw [hstrands.step]
    exact (Heap.differs_add hs s).mode?_of_added hid

/-- An instruction that a run comes to keeps the mode of a live sequence, unless it releases it. -/
theorem mode?_step_of_reaches (hs : m.heap.Sound) (hreach : Reaches p (clearRegisters m) k i m₁)
    (hkept : ¬ ReleasesAt p m k id) (hid : m₁.heap.mode? id = some mode) :
    (m₁.step i).2.heap.mode? id = some mode := by
  have hs₁ : m₁.heap.Sound := hreach.2.preserves (I := fun m => m.heap.Sound) sound_step hs
  by_cases hok : (m₁.step i).1 = .ok ()
  · rcases (footprint_step hs₁ hok).mode?_or_release hid with hmode | ⟨seq, rfl, hheld, hgone⟩
    · exact hmode
    · -- It was live and is not any more, so this is a release of it.
      obtain ⟨s, hlive, _⟩ := Option.map_eq_some_iff.mp hid
      rw [← state_evaluate] at hgone
      exact absurd ⟨seq, m₁, hreach, hheld, ⟨s, hlive⟩, hgone⟩ hkept
  · exact mode?_step_of_ne_ok hs₁ hok hid

/-- Between two points of a run a sequence keeps its mode, unless it is released. -/
theorem mode?_of_executes (hs : m.heap.Sound) (hk : Executes (p.take k) (clearRegisters m) m₁)
    (hid : m₁.heap.mode? id = some mode) (n : Nat) (hn : k + n ≤ p.length)
    (hkept : ∀ l, k ≤ l → l < k + n → ¬ ReleasesAt p m l id)
    (hl : Executes (p.take (k + n)) (clearRegisters m) m₂) : m₂.heap.mode? id = some mode := by
  -- By induction on the number of instructions between the two points.
  induction n generalizing m₂ with
  | zero =>
    rw [hk.unique hl] at hid
    exact hid
  | succ n ih =>
    obtain ⟨j, m', hreach, hstep⟩ := Reaches.exists_last hn hl
    have hbefore : m'.heap.mode? id = some mode := by
      apply ih (Nat.le_of_succ_le hn) _ hreach.2
      intro l hle hlt
      exact hkept l hle (Nat.lt_succ_of_lt hlt)
    have hlast : ¬ ReleasesAt p m (k + n) id := hkept _ (Nat.le_add_right k n) (Nat.lt_succ_self _)
    have hafter := mode?_step_of_reaches hs hreach hlast hbefore
    rwa [hstep] at hafter

theorem EndsBy.le_of_executes {x : Outcome Error Value × Machine} (h : EndsBy m₂ i x)
    (hreach : Reaches p m l i m₂) (hk : Executes (p.take k) m m₁) : k ≤ l := by
  apply Nat.le_of_not_lt
  intro hlt
  -- The first instructions would end the run, and they are carried out to their end.
  have hprefix : Reaches (p.take k) m l i m₂ := by
    refine ⟨?_, ?_⟩
    · rw [List.getElem?_take_of_lt hlt, hreach.1]
    · rw [List.take_take, Nat.min_eq_left (Nat.le_of_lt hlt)]
      exact hreach.2
  have hend := h.ending_runFrom hprefix k 0
  rw [hk.ending_runFrom] at hend
  exact h.not_ranOff ⟨_, _, congrArg Prod.fst hend.symm⟩

theorem EndsBy.mode? {x : Outcome Error Value × Machine} (hs : m.heap.Sound)
    (hreach : Reaches p (clearRegisters m) k i m₁) (h : EndsBy m₁ i x) (hkept : ¬ ReleasesAt p m k id)
    (hid : m₁.heap.mode? id = some mode) : x.2.heap.mode? id = some mode := by
  cases h with
  | error hstep | fault hstep =>
    have hafter := mode?_step_of_reaches hs hreach hkept hid
    rwa [hstep] at hafter
  | ret src =>
    rw [ending_takeOut]
    cases m₁.value src <;> exact hid

/-- Over the rest of a run a sequence that is not released keeps its mode. -/
theorem mode?_run (hs : m.heap.Sound) (hreach : Reaches p (clearRegisters m) k i m₁)
    (hid : m₁.heap.mode? id = some mode) (hkept : ∀ l, k ≤ l → ¬ ReleasesAt p m l id) :
    (run p m).state.heap.mode? id = some mode := by
  have hbetween : ∀ {l m₂}, k ≤ l → l ≤ p.length → Executes (p.take l) (clearRegisters m) m₂ →
      m₂.heap.mode? id = some mode := by
    intro l m₂ hkl hlength hl
    obtain ⟨n, rfl⟩ := Nat.exists_eq_add_of_le hkl
    exact mode?_of_executes hs hreach.2 hid n hlength (fun l hle _ => hkept l hle) hl
  have hend : (runFrom p.length 0 p (clearRegisters m)).ending.2 = (run p m).state :=
    congrArg Prod.snd (ending_run p m).symm
  rw [← hend]
  rcases ending_runFrom_cases p.length 0 p (clearRegisters m) with
    ⟨m', hexec, heq⟩ | ⟨l, j, m', hl, hends⟩
  · rw [heq]
    have hk : k < p.length := (List.getElem?_eq_some_iff.mp hreach.1).1
    apply hbetween (Nat.le_of_lt hk) (Nat.le_refl _)
    rwa [List.take_length]
  · have hkl := hends.le_of_executes hl hreach.2
    have hlength : l < p.length := (List.getElem?_eq_some_iff.mp hl.1).1
    exact hends.mode? hs hl (hkept l hkl) (hbetween hkl (Nat.le_of_lt hlength) hl.2)

end Mode

/-- A successful instruction changes no more than its footprint says: no register but the one that it
loads, and no sequence but the one that it stores, changes or removes, whatever other registers and elements
hold the handle. So over a run a sequence keeps its mode until it is released, also where the run ends. -/
theorem evaluate_footprint (hs : m.heap.Sound) :
    (∀ i, (evaluate i m).outcome = .ok () → Footprint m i (evaluate i m).state) ∧
    ∀ p k i m₁ id mode, Reaches p (clearRegisters m) k i m₁ → m₁.heap.mode? id = some mode →
      (∀ l j m₂, k ≤ l → Reaches p (clearRegisters m) l j m₂ →
        (∀ n, k ≤ n → n < l → ¬ ReleasesAt p m n id) → m₂.heap.mode? id = some mode) ∧
      ((∀ n, k ≤ n → ¬ ReleasesAt p m n id) → (run p m).state.heap.mode? id = some mode) := by
  constructor
  · intro i hok
    rw [outcome_evaluate] at hok
    rw [state_evaluate]
    exact footprint_step hs hok
  · intro p k i m₁ id mode hreach hid
    constructor
    · intro l j m₂ hkl hlater hkept
      obtain ⟨n, rfl⟩ := Nat.exists_eq_add_of_le hkl
      have hlength : k + n ≤ p.length := Nat.le_of_lt (List.getElem?_eq_some_iff.mp hlater.1).1
      exact mode?_of_executes hs hreach.2 hid n hlength hkept hlater.2
    · intro hkept
      exact mode?_run hs hreach hid hkept

def entangled : Machine :=
  ⟨⟨4, false, Limits.unlimited⟩, [.seq ⟨0⟩, .seq ⟨0⟩, .int (-1), .int 2],
    ⟨[some ⟨[.seq ⟨0⟩, .int 5], .cyclic⟩, none], [1]⟩⟩

theorem sound_entangled : entangled.heap.Sound := by
  constructor
  · exact List.nodup_singleton 1
  · intro slot
    match slot with
    | 0 | 1 | n + 2 => simp [entangled]

def reusing : Program :=
  [.newSeq ⟨0⟩ 1 .bounded, .release ⟨0⟩, .newSeq ⟨1⟩ 0 .cyclic, .push ⟨1⟩ ⟨1⟩, .ret ⟨1⟩]

/-- A slice that is loaded over the handle of its source is bounded, and leaves the source and the other
register. The slot of a released sequence has the mode of the next one, to the end of the run. -/
theorem evaluate_footprint_entangled :
    let i : Instruction := .slice ⟨0⟩ ⟨0⟩ ⟨2⟩ ⟨3⟩
    entangled.heap.Sound ∧
    (evaluate i entangled).outcome = .ok () ∧ Footprint entangled i (evaluate i entangled).state ∧
    (∃ m₁ m₂, Reaches reusing (clearRegisters entangled) 3 (.push ⟨1⟩ ⟨1⟩) m₁ ∧
      Reaches reusing (clearRegisters entangled) 4 (.ret ⟨1⟩) m₂ ∧
      m₁.heap.mode? ⟨1⟩ = some .cyclic ∧ m₂.heap.mode? ⟨1⟩ = some .cyclic) ∧
    (∀ n, 3 ≤ n → ¬ ReleasesAt reusing entangled n ⟨1⟩) ∧
    (run reusing entangled).state.heap.mode? ⟨1⟩ = some .cyclic := by
  intro i
  obtain ⟨hinstruction, hrun⟩ := evaluate_footprint sound_entangled
  have hok : (evaluate i entangled).outcome = .ok () := by decide
  have hkept : ∀ n, 3 ≤ n → ¬ ReleasesAt reusing entangled n ⟨1⟩ := by
    rintro n hn ⟨seq, m', hreach, _⟩
    have hget := hreach.1
    match n, hn with
    | 3, _ | 4, _ | n + 5, _ => cases hget
  have hfirst : Reaches reusing (clearRegisters entangled) 3 (.push ⟨1⟩ ⟨1⟩) _ :=
    ⟨rfl, .cons rfl rfl (.cons rfl rfl (.cons rfl rfl (.nil _)))⟩
  have hlast : Reaches reusing (clearRegisters entangled) 4 (.ret ⟨1⟩) _ :=
    ⟨rfl, .cons rfl rfl (.cons rfl rfl (.cons rfl rfl (.cons rfl rfl (.nil _))))⟩
  have hmode := hrun reusing 3 _ _ ⟨1⟩ .cyclic hfirst (by decide)
  refine ⟨sound_entangled, hok, hinstruction i hok, ⟨_, _, hfirst, hlast, by decide, ?_⟩, hkept, ?_⟩
  · exact hmode.1 4 _ _ (by decide) hlast fun n hn _ => hkept n hn
  · exact hmode.2 hkept

end Machine

end SequenceMachine
