import SequenceMachine.Proofs.Machine.Execution
import SequenceMachine.Proofs.Sequence.Length

namespace SequenceMachine

namespace Heap

variable {h : Heap} {id other : Handle} {s t : Sequence Value}

/-- After storing, a handle finds the new sequence or what it found before, also in a heap that is not
sound. -/
theorem get?_add_cases (hid : (h.add s).get? id = some t) : t = s ∨ h.get? id = some t := by
  rw [get?_eq_some_iff] at hid ⊢
  unfold add at hid
  cases hfree : h.free with
  | nil =>
    simp only [hfree, List.getElem?_append, List.getElem?_singleton] at hid
    split at hid
    · exact .inr hid
    · split at hid
      · exact .inl (Option.some.inj (Option.some.inj hid)).symm
      · cases hid
  | cons slot free =>
    -- A free slot is used again; in an unsound heap it may not exist, and then nothing is stored.
    simp only [hfree, List.getElem?_set] at hid
    split at hid
    · split at hid
      · exact .inl (Option.some.inj (Option.some.inj hid)).symm
      · cases hid
    · exact .inr hid

theorem get?_replace_cases (hid : h.get? id = some s)
    {u : Sequence Value} (hother : (h.replace id t).get? other = some u) :
    (other = id ∧ u = t) ∨ h.get? other = some u := by
  by_cases heq : other = id
  · subst heq
    rw [get?_replace_self hid] at hother
    exact .inl ⟨rfl, (Option.some.inj hother).symm⟩
  · rw [get?_replace_of_ne heq] at hother
    exact .inr hother

theorem get?_of_get?_remove (hother : (h.remove id).get? other = some s) : h.get? other = some s := by
  have hne : other ≠ id := by
    intro heq
    rw [heq, get?_remove_self] at hother
    cases hother
  rwa [get?_remove_of_ne hne] at hother

def LengthsWithin (h : Heap) (max : Nat) : Prop := ∀ id s, h.get? id = some s → s.length ≤ max

end Heap

namespace Machine

variable {m m' : Machine} {i : Instruction} {e : Effect} {id : Handle} {s t : Sequence Value}

theorem length_of_mapM_eq_ok {f : Register → Outcome Error Value} {rs : List Register}
    {vs : List Value} (h : rs.mapM f = .ok vs) : vs.length = rs.length := by
  induction rs generalizing vs with
  | nil =>
    obtain rfl := Outcome.ok.inj h
    rfl
  | cons r rs ih =>
    rw [List.mapM_cons] at h
    obtain ⟨v, _, h⟩ := Outcome.bind_eq_ok_iff.mp h
    obtain ⟨ws, hws, h⟩ := Outcome.bind_eq_ok_iff.mp h
    obtain rfl := Outcome.ok.inj h
    exact congrArg (· + 1) (ih hws)

/-- An instruction stores no sequence above the limit. -/
theorem Plans.length_of_store {dst : Register} (h : Plans m i (.store dst s)) :
    s.length ≤ m.config.limits.ceiling := by
  cases h with
  | newSeq dst mode hlength =>
    change (List.replicate _ Value.nothing).length ≤ _
    rwa [List.length_replicate]
  | collect dst mode hlength hvs =>
    change List.length _ ≤ _
    rwa [length_of_mapM_eq_ok hvs]
  | slice dst hl hr hid hs hlength ht =>
    rwa [Sequence.length_of_slice_eq_ok ht]

/-- An instruction replaces a stored sequence by one within the limit or by one of its length. -/
theorem Plans.length_of_replace (h : Plans m i (.replace id t)) :
    ∃ s, m.heap.get? id = some s ∧ (t.length ≤ m.config.limits.ceiling ∨ s.length = t.length) := by
  cases h with
  | setIndex hk hv hid hs ht => exact ⟨_, hs, .inr (Sequence.length_of_stateAfter_set ht).symm⟩
  | setSlice hl hr hdst hid hsource htarget hlength hle ht =>
    -- The predicted length was checked, and it is the one that comes about.
    refine ⟨_, htarget, .inl ?_⟩
    rwa [Sequence.length_of_stateAfter_assign hlength ht]
  | @push _ _ v _ s hv hid hs hlength =>
    refine ⟨s, hs, .inl ?_⟩
    have hpush : (s.push v).length = s.length + 1 := List.length_append
    rwa [hpush]

/-- A sequence that is live after an instruction was live before under the same handle, or the
instruction stored it or put it there. -/
theorem get?_step_cases (h : (m.step i).2.heap.get? id = some s) :
    m.heap.get? id = some s ∨ (∃ dst, Plans m i (.store dst s)) ∨ Plans m i (.replace id s) := by
  rcases step_cases m i with hkeep | ⟨e, hplan, hstep⟩
  · rw [hkeep] at h
    exact .inl h
  · rw [hstep, heap_commit] at h
    cases e with
    | none | load => exact .inl h
    | store dst t =>
      rcases Heap.get?_add_cases h with rfl | hold
      · exact .inr (.inl ⟨dst, hplan⟩)
      · exact .inl hold
    | replace target t =>
      obtain ⟨u, hu⟩ := hplan.live rfl
      rcases Heap.get?_replace_cases hu h with ⟨rfl, rfl⟩ | hold
      · exact .inr (.inr hplan)
      · exact .inl hold
    | release target => exact .inl (Heap.get?_of_get?_remove h)

/-- After an instruction each live sequence is within the limit or as long as the one before it in its
slot. -/
theorem length_of_get?_step (m : Machine) (i : Instruction)
    (hid : (m.step i).2.heap.get? id = some s) :
    s.length ≤ m.config.limits.ceiling ∨ ∃ t, m.heap.get? id = some t ∧ t.length = s.length := by
  rcases get?_step_cases hid with hold | ⟨dst, hstore⟩ | hreplace
  · exact .inr ⟨s, hold, rfl⟩
  · exact .inl hstore.length_of_store
  · obtain ⟨t, ht, hlength⟩ := hreplace.length_of_replace
    exact hlength.imp_right fun heq => ⟨t, ht, heq⟩

def runs (programs : List Program) (m : Machine) : Machine :=
  programs.foldl (fun m p => (run p m).state) m

def WithinLimit (config : Config) (m : Machine) : Prop :=
  m.config = config ∧ m.heap.LengthsWithin config.limits.ceiling

/-- No instruction takes a machine out of its limit, whether or not it fails. -/
theorem withinLimit_step {config : Config} (m : Machine) (i : Instruction)
    (hm : WithinLimit config m) : WithinLimit config (m.step i).2 := by
  obtain ⟨hconfig, hwithin⟩ := hm
  refine ⟨(config_step m i).trans hconfig, ?_⟩
  intro id s hid
  rcases length_of_get?_step m i hid with hle | ⟨t, ht, heq⟩
  · rwa [hconfig] at hle
  · exact heq ▸ hwithin id t ht

/-- Programs that are run one after the other stay within the limit together. -/
theorem withinLimit_runs {config : Config} (programs : List Program) (hm : WithinLimit config m) :
    WithinLimit config (runs programs m) := by
  induction programs generalizing m with
  | nil => exact hm
  | cons p programs ih =>
    apply ih
    exact run_induction withinLimit_step (fun m r h => h) p hm

/-- The limit cannot be bypassed. After an instruction, successful or not, each live sequence is within
the limit or as long as the one that was in its slot. So from an empty heap, between runs and at each
moment of a run, each live sequence is within the limit. -/
theorem lengths_within_limit :
    (∀ (m : Machine) (i : Instruction) (id : Handle) (s : Sequence Value),
      (evaluate i m).state.heap.get? id = some s →
        s.length ≤ m.config.limits.ceiling ∨ ∃ t, m.heap.get? id = some t ∧ t.length = s.length) ∧
    (∀ (m : Machine) (programs : List Program),
      (runs programs { m with heap := Heap.empty }).heap.LengthsWithin m.config.limits.ceiling) ∧
    (∀ (m m' : Machine) (programs : List Program) (done : Program),
      Executes done (clearRegisters (runs programs { m with heap := Heap.empty })) m' →
        m'.heap.LengthsWithin m.config.limits.ceiling) := by
  have hempty (m : Machine) : WithinLimit m.config { m with heap := Heap.empty } := by
    refine ⟨rfl, ?_⟩
    intro id s hid
    rw [Heap.get?_empty] at hid
    cases hid
  refine ⟨?_, ?_, ?_⟩
  · intro m i id s hid
    rw [state_evaluate] at hid
    exact length_of_get?_step m i hid
  · intro m programs
    exact (withinLimit_runs programs (hempty m)).2
  · intro m m' programs done hdone
    exact (hdone.preserves withinLimit_step (withinLimit_runs programs (hempty m))).2

def overfull : Machine :=
  ⟨⟨1, false, ⟨some 2⟩⟩, [.seq ⟨0⟩], ⟨[some ⟨[.int 1, .int 2, .int 3], .cyclic⟩], []⟩⟩

/-- The long sequence keeps its length where one more element is refused, and from an empty heap a
sequence is filled up to the limit but not above it, also while the second run goes on. -/
theorem lengths_within_limit_overfull :
    ((evaluate (.push ⟨0⟩ ⟨0⟩) overfull).state.heap.get? ⟨0⟩ =
        some ⟨[.int 1, .int 2, .int 3], .cyclic⟩ ∧
      (3 ≤ 2 ∨ ∃ t, overfull.heap.get? ⟨0⟩ = some t ∧ t.length = 3)) ∧
    ∃ m m', runs [[.newSeq ⟨0⟩ 1 .cyclic, .push ⟨0⟩ ⟨0⟩, .push ⟨0⟩ ⟨0⟩]]
        { overfull with heap := Heap.empty } = m ∧
      m.heap.get? ⟨0⟩ = some ⟨[.nothing, .seq ⟨0⟩], .cyclic⟩ ∧ m.heap.LengthsWithin 2 ∧
      Executes [.newSeq ⟨0⟩ 2 .bounded] (clearRegisters m) m' ∧
      m'.heap.get? ⟨1⟩ = some ⟨[.nothing, .nothing], .bounded⟩ ∧ m'.heap.LengthsWithin 2 := by
  have hlong : (evaluate (.push ⟨0⟩ ⟨0⟩) overfull).state.heap.get? ⟨0⟩ =
      some ⟨[.int 1, .int 2, .int 3], .cyclic⟩ := by decide
  let programs : List Program := [[.newSeq ⟨0⟩ 1 .cyclic, .push ⟨0⟩ ⟨0⟩, .push ⟨0⟩ ⟨0⟩]]
  let m := runs programs { overfull with heap := Heap.empty }
  let m' := ((clearRegisters m).step (.newSeq ⟨0⟩ 2 .bounded)).2
  have hdone : Executes [.newSeq ⟨0⟩ 2 .bounded] (clearRegisters m) m' := .cons rfl rfl (.nil m')
  refine ⟨⟨hlong, lengths_within_limit.1 overfull _ _ _ hlong⟩, m, m', rfl, by decide, ?_, hdone,
    by decide, ?_⟩
  · exact lengths_within_limit.2.1 overfull programs
  · exact lengths_within_limit.2.2 overfull m' programs _ hdone

end Machine

end SequenceMachine
