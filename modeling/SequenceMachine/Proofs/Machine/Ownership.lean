import SequenceMachine.Proofs.Machine.Limit
import SequenceMachine.Proofs.Sequence.Elements

namespace SequenceMachine

def Value.Within (own : Handle → Prop) (v : Value) : Prop := ∀ id, v = .seq id → own id

def Sequence.Within (own : Handle → Prop) (s : Sequence Value) : Prop := ∀ v ∈ s.elements, v.Within own

theorem Value.Within.mono {own own' : Handle → Prop} (h : ∀ id, own id → own' id) {v : Value}
    (hv : v.Within own) : v.Within own' := fun id heq => h id (hv id heq)

theorem Sequence.Within.mono {own own' : Handle → Prop} (h : ∀ id, own id → own' id)
    {s : Sequence Value} (hs : s.Within own) : s.Within own' := fun v hv => (hs v hv).mono h

namespace Machine

variable {own : Handle → Prop} {m : Machine} {i : Instruction} {e : Effect} {id : Handle}
  {s : Sequence Value} {r : Register} {v : Value}

structure Closed (own : Handle → Prop) (m : Machine) : Prop where
  registers : ∀ v ∈ m.registers, v.Within own
  elements : ∀ id s, own id → m.heap.get? id = some s → s.Within own

theorem mem_registers_of_value (h : m.value r = .ok v) : v ∈ m.registers :=
  List.mem_of_getElem? (Outcome.ofOption_eq_ok_iff.mp h)

theorem mem_registers_of_handle (h : m.handle r = .ok id) : .seq id ∈ m.registers :=
  List.mem_of_getElem? (handle_eq_ok_iff.mp h)

theorem mem_registers_of_mapM {rs : List Register} {vs : List Value} (h : rs.mapM m.value = .ok vs)
    (hv : v ∈ vs) : v ∈ m.registers := by
  induction rs generalizing vs with
  | nil =>
    obtain rfl := Outcome.ok.inj h
    cases hv
  | cons r rs ih =>
    rw [List.mapM_cons] at h
    obtain ⟨w, hw, h⟩ := Outcome.bind_eq_ok_iff.mp h
    obtain ⟨ws, hws, h⟩ := Outcome.bind_eq_ok_iff.mp h
    obtain rfl := Outcome.ok.inj h
    rcases List.mem_cons.mp hv with rfl | hlater
    · exact mem_registers_of_value hw
    · exact ih hws hlater

def Effect.Within (own : Handle → Prop) : Effect → Prop
  | .load _ v => v.Within own
  | .store _ s => s.Within own
  | .replace _ s => s.Within own
  | _ => True

/-- A sequence that an operand names holds handles of the closed set only. -/
theorem Closed.sequence (hc : Closed own m) (hid : m.handle r = .ok id) (hs : m.heap.get? id = some s) :
    s.Within own :=
  hc.elements id s (hc.registers _ (mem_registers_of_handle hid) id rfl) hs

/-- Instructions take what they put down from the registers and from the sequences named there. -/
theorem Closed.effect (hc : Closed own m) (h : Plans m i e) : e.Within own := by
  have hvalue {r : Register} {v : Value} (hv : m.value r = .ok v) : v.Within own :=
    hc.registers v (mem_registers_of_value hv)
  cases h with
  | loadInt | loadStr | len =>
    intro id heq
    cases heq
  | newSeq dst mode hlength =>
    intro v hv id heq
    rw [List.eq_of_mem_replicate hv] at heq
    cases heq
  | collect dst mode hlength hvs =>
    intro v hv
    exact hc.registers v (mem_registers_of_mapM hvs hv)
  | index dst hk hid hs hv => exact hc.sequence hid hs _ (Sequence.mem_of_get_eq_ok hv)
  | setIndex hk hv hid hs ht =>
    intro w hw
    rcases Sequence.mem_of_stateAfter_set ht hw with hold | rfl
    · exact hc.sequence hid hs w hold
    · exact hvalue hv
  | slice dst hl hr hid hs hlength ht =>
    intro v hv
    exact hc.sequence hid hs v (Sequence.mem_of_slice_eq_ok ht hv)
  | setSlice hl hr hdst hid hsource htarget hlength hle ht =>
    intro v hv
    rcases Sequence.mem_of_stateAfter_assign ht hv with hassigned | hold
    · exact hc.sequence hid hsource v hassigned
    · exact hc.sequence hdst htarget v hold
  | push hv hid hs hlength =>
    intro w hw
    rcases List.mem_append.mp hw with hold | hnew
    · exact hc.sequence hid hs w hold
    · rw [List.mem_singleton.mp hnew]
      exact hvalue hv
  | release | ret => trivial

/-- Writing a register brings in no value but the one that is written. -/
theorem mem_registers_put {w : Value} (h : w ∈ (m.put r v).2.registers) : w ∈ m.registers ∨ w = v := by
  unfold put at h
  split at h
  · exact List.mem_or_eq_of_mem_set h
  · exact .inl h

/-- A register holds after an instruction what it held before, what was loaded, or the handle of what
was stored. -/
theorem mem_registers_step (h : v ∈ (m.step i).2.registers) :
    v ∈ m.registers ∨ (∃ dst, Plans m i (.load dst v)) ∨
      ∃ dst s, Plans m i (.store dst s) ∧ v = .seq ⟨m.heap.upcoming 0⟩ := by
  rcases step_cases m i with hkeep | ⟨e, hplan, hstep⟩
  · rw [hkeep] at h
    exact .inl h
  · rw [hstep] at h
    cases e with
    | none | replace | release => exact .inl h
    | load dst w =>
      rcases mem_registers_put h with hold | rfl
      · exact .inl hold
      · exact .inr (.inl ⟨dst, hplan⟩)
    | store dst s =>
      rcases mem_registers_put h with hold | rfl
      · exact .inl hold
      · exact .inr (.inr ⟨dst, s, hplan, rfl⟩)

def Allocates (m : Machine) (i : Instruction) (id : Handle) : Prop :=
  m.heap.get? id = none ∧ ∃ s, (evaluate i m).state.heap.get? id = some s

/-- To store a sequence allocates the next slot, also where its handle cannot be loaded. -/
theorem allocates_of_store {dst : Register} (hs : m.heap.Sound) (h : Plans m i (.store dst s)) :
    Allocates m i ⟨m.heap.upcoming 0⟩ := by
  refine ⟨hs.get?_upcoming 0, s, ?_⟩
  rw [state_evaluate, step_of_plan (plan_eq_ok_of_plans h), heap_commit]
  change (m.heap.add s).get? _ = some s
  rw [Heap.get?_add hs, if_pos rfl]

/-- Closedness goes on with the newly allocated handle. -/
theorem Closed.step (hc : Closed own m) (hs : m.heap.Sound) (i : Instruction) :
    Closed (fun id => own id ∨ Allocates m i id) (m.step i).2 := by
  have hmore : ∀ id, own id → own id ∨ Allocates m i id := fun id hid => .inl hid
  constructor
  · intro v hv
    rcases mem_registers_step hv with hold | ⟨dst, hload⟩ | ⟨dst, s, hstore, rfl⟩
    · exact (hc.registers v hold).mono hmore
    · have hloaded : v.Within own := hc.effect hload
      exact hloaded.mono hmore
    · -- The handle of a stored sequence is the allocated one.
      intro id heq
      cases heq
      exact .inr (allocates_of_store hs hstore)
  · intro id s hid hlive
    rcases get?_step_cases hlive with hold | ⟨dst, hstore⟩ | hreplace
    · rcases hid with hown | hnew
      · exact (hc.elements id s hown hold).mono hmore
      · -- What was live before is not allocated.
        rw [hnew.1] at hold
        cases hold
    · have hstored : s.Within own := hc.effect hstore
      exact hstored.mono hmore
    · have hreplaced : s.Within own := hc.effect hreplace
      exact hreplaced.mono hmore

/-- Only a release ends the life of a sequence. -/
theorem release_of_get?_step (hs : m.heap.Sound) (hid : m.heap.get? id = some s)
    (hgone : (m.step i).2.heap.get? id = none) : ∃ seq, i = .release seq ∧ m.handle seq = .ok id := by
  rcases step_cases m i with hkeep | ⟨e, hplan, hstep⟩
  · rw [hkeep, hid] at hgone
    cases hgone
  · rw [hstep, heap_commit] at hgone
    cases e with
    | none | load =>
      rw [Effect.heapAfter, hid] at hgone
      cases hgone
    | store dst t =>
      rw [Effect.heapAfter, Heap.get?_add hs] at hgone
      split at hgone
      · cases hgone
      · rw [hid] at hgone
        cases hgone
    | replace target t =>
      obtain ⟨u, hu⟩ := hplan.live rfl
      by_cases heq : id = target
      · rw [Effect.heapAfter, heq, Heap.get?_replace_self hu] at hgone
        cases hgone
      · rw [Effect.heapAfter, Heap.get?_replace_of_ne heq, hid] at hgone
        cases hgone
    | release target =>
      by_cases heq : id = target
      · subst heq
        cases hplan with
        | release hheld _ => exact ⟨_, rfl, hheld⟩
      · rw [Effect.heapAfter, Heap.get?_remove_of_ne heq, hid] at hgone
        cases hgone

end Machine

end SequenceMachine
