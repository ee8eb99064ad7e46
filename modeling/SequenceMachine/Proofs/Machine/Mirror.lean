import SequenceMachine.Proofs.Heap.Mirror
import SequenceMachine.Proofs.Machine.Execution

/-!
Machines that mirror each other: the same limits, corresponding registers and mirrored heaps. They plan
corresponding effects, so each instruction ends on them with the corresponding outcome and keeps them
mirrored, and so does a run. The instructions only ask which kind a value is and which slot a handle
names, and corresponding handles name corresponding slots, live or not.
-/

namespace SequenceMachine.Machine

/-- `m'` is `m` under the names that `ρ` gives to its registers and slots, next to what `rest` holds. -/
structure Mirrors (ρ : Renaming) (rest : Heap) (m m' : Machine) : Prop where
  limits : m'.config.limits = m.config.limits
  getElem?_register : ∀ r, ρ.names r →
    m'.registers[(ρ.register r).number]? = m.registers[r.number]?.map ρ.value
  heap : Heap.Mirrors ρ rest m.heap m'.heap

structure Agree {α β : Type} (ρ : Renaming) (rest : Heap) (g : α → β) (x : Outcome Error α × Machine)
    (x' : Outcome Error β × Machine) : Prop where
  outcome : x'.1 = x.1.bimap ρ.error g
  machine : Mirrors ρ rest x.2 x'.2

variable {ρ : Renaming} {rest : Heap} {m m' : Machine}

/-- Corresponding outcomes with corresponding continuations have corresponding endings. -/
theorem Agree.andThen {α β α' β' : Type} {g : α → α'} {g' : β → β'} {x : Outcome Error α}
    {x' : Outcome Error α'} {f : α → Outcome Error β × Machine} {f' : α' → Outcome Error β' × Machine}
    (hx : x' = x.bimap ρ.error g) (hm : Mirrors ρ rest m m')
    (hf : ∀ a, x = .ok a → Agree ρ rest g' (f a) (f' (g a))) :
    Agree ρ rest g' (x.andThen m f) (x'.andThen m' f') := by
  subst hx
  cases x with
  | ok a => exact hf a rfl
  | error e => exact ⟨rfl, hm⟩
  | fault c => exact ⟨rfl, hm⟩

namespace Mirrors

section Reads
variable (hm : Mirrors ρ rest m m') {r : Register} (hr : ρ.names r)

include hm hr in
/-- Corresponding registers are read alike, also where they do not exist. -/
theorem value : m'.value (ρ.register r) = (m.value r).bimap ρ.error ρ.value := by
  unfold Machine.value
  rw [hm.getElem?_register r hr]
  cases m.registers[r.number]? <;> rfl

include hm hr in
theorem int : m'.int (ρ.register r) = (m.int r).bimap ρ.error fun k => k := by
  refine Outcome.bind_eq_bimap (hm.value hr) fun v _ => ?_
  rw [ρ.kind_value, ρ.asInt?_value]
  cases v.asInt? <;> rfl

include hm hr in
theorem handle : m'.handle (ρ.register r) = (m.handle r).bimap ρ.error ρ.handle := by
  refine Outcome.bind_eq_bimap (hm.value hr) fun v _ => ?_
  rw [ρ.kind_value, ρ.asSeq?_value]
  cases v.asSeq? <;> rfl

include hm in
/-- A handle that is stale is stale under its new name too. -/
theorem stored (id : Handle) : m'.stored (ρ.handle id) = (m.stored id).bimap ρ.error ρ.sequence := by
  unfold Machine.stored Heap.lookup
  rw [hm.heap.get?_handle]
  cases m.heap.get? id <;> rfl

include hm in
theorem permit {n n' : Nat} (hn : n' = n) : m'.permit n' = (m.permit n).bimap ρ.error fun u => u := by
  subst hn
  unfold Machine.permit
  rw [hm.limits]
  split <;> rfl

include hm in
theorem mapM_value {rs : List Register} (hrs : ∀ r ∈ rs, ρ.names r) :
    (rs.map ρ.register).mapM m'.value = (rs.mapM m.value).bimap ρ.error (List.map ρ.value) := by
  induction rs with
  | nil => rfl
  | cons r rs ih =>
    have hhead := hm.value (hrs r List.mem_cons_self)
    have htail := ih fun r hr => hrs r (List.mem_cons_of_mem _ hr)
    rw [List.map_cons, List.mapM_cons, List.mapM_cons]
    refine Outcome.bind_eq_bimap hhead fun v _ => ?_
    refine Outcome.bind_eq_bimap htail fun vs _ => ?_
    rfl

end Reads

/-- The errors of sequences name nothing that is renamed. -/
theorem passOn_bimap {α β : Type} {f : α → β} {x : Outcome Sequence.Error α}
    {x' : Outcome Sequence.Error β} (hx : x' = f <$> x) :
    passOn x' = (passOn x).bimap ρ.error f := by
  subst hx
  cases x <;> rfl

theorem add_bimap {a a' : Nat} (ha : a' = a) (b : Nat) : (Size.add a' b : Outcome Error Nat) =
    (Size.add a b : Outcome Error Nat).bimap ρ.error fun n => n := by
  subst ha
  unfold Size.add
  split <;> rfl

/-- Mirrored machines plan corresponding effects. -/
theorem plan (hm : Mirrors ρ rest m m') {i : Instruction} (hi : ∀ r ∈ i.operands, ρ.names r) :
    m'.plan (ρ.instruction i) = (m.plan i).bimap ρ.error ρ.effect := by
  -- Step by step the reads correspond: an instruction does not look into the values that it moves.
  cases i with
  | loadInt dst val => rfl
  | loadStr dst val => rfl
  | newSeq dst length mode =>
    refine Outcome.bind_eq_bimap (hm.permit rfl) fun _ _ => ?_
    refine Outcome.bind_eq_bimap (Sequence.replicate_map ρ.value ρ.error length .nothing mode) fun s _ => ?_
    rfl
  | collect dst srcs mode =>
    have hlength : (srcs.map ρ.register).length = srcs.length := List.length_map _
    have hsrcs := hm.mapM_value fun r hr => hi r (List.mem_cons_of_mem _ hr)
    refine Outcome.bind_eq_bimap (hm.permit hlength) fun _ _ => ?_
    refine Outcome.bind_eq_bimap hsrcs fun vs _ => ?_
    rfl
  | len dst seq =>
    have hseq := hi seq (by simp [Instruction.operands])
    refine Outcome.bind_eq_bimap (hm.handle hseq) fun id _ => ?_
    refine Outcome.bind_eq_bimap (hm.stored id) fun s _ => ?_
    have hlength : (ρ.sequence s).length = s.length := Sequence.length_map ρ.value s
    rw [hlength]
    rfl
  | index dst seq index =>
    have hseq := hi seq (by simp [Instruction.operands])
    have hindex := hi index (by simp [Instruction.operands])
    refine Outcome.bind_eq_bimap (hm.int hindex) fun k _ => ?_
    refine Outcome.bind_eq_bimap (hm.handle hseq) fun id _ => ?_
    refine Outcome.bind_eq_bimap (hm.stored id) fun s _ => ?_
    refine Outcome.bind_eq_bimap (passOn_bimap (Sequence.get_map ρ.value s k)) fun v _ => ?_
    rfl
  | setIndex seq index src =>
    have hseq := hi seq (by simp [Instruction.operands])
    have hindex := hi index (by simp [Instruction.operands])
    have hsrc := hi src (by simp [Instruction.operands])
    refine Outcome.bind_eq_bimap (hm.int hindex) fun k _ => ?_
    refine Outcome.bind_eq_bimap (hm.value hsrc) fun v _ => ?_
    refine Outcome.bind_eq_bimap (hm.handle hseq) fun id _ => ?_
    refine Outcome.bind_eq_bimap (hm.stored id) fun s _ => ?_
    refine Outcome.bind_eq_bimap (passOn_bimap (Sequence.stateAfter_set_map ρ.value s k v)) fun t _ => ?_
    rfl
  | slice dst seq left right =>
    have hseq := hi seq (by simp [Instruction.operands])
    have hleft := hi left (by simp [Instruction.operands])
    have hright := hi right (by simp [Instruction.operands])
    refine Outcome.bind_eq_bimap (hm.int hleft) fun l _ => ?_
    refine Outcome.bind_eq_bimap (hm.int hright) fun r _ => ?_
    refine Outcome.bind_eq_bimap (hm.handle hseq) fun id _ => ?_
    refine Outcome.bind_eq_bimap (hm.stored id) fun s _ => ?_
    have hlength : (ρ.sequence s).sliceLength l r = s.sliceLength l r :=
      Sequence.sliceLength_map ρ.value s l r
    refine Outcome.bind_eq_bimap (hm.permit hlength) fun _ _ => ?_
    refine Outcome.bind_eq_bimap (Sequence.slice_map ρ.value s l r ρ.error) fun t _ => ?_
    rfl
  | setSlice seq left right src =>
    have hseq := hi seq (by simp [Instruction.operands])
    have hleft := hi left (by simp [Instruction.operands])
    have hright := hi right (by simp [Instruction.operands])
    have hsrc := hi src (by simp [Instruction.operands])
    refine Outcome.bind_eq_bimap (hm.int hleft) fun l _ => ?_
    refine Outcome.bind_eq_bimap (hm.int hright) fun r _ => ?_
    refine Outcome.bind_eq_bimap (hm.handle hseq) fun dst _ => ?_
    refine Outcome.bind_eq_bimap (hm.handle hsrc) fun id _ => ?_
    refine Outcome.bind_eq_bimap (hm.stored id) fun source _ => ?_
    refine Outcome.bind_eq_bimap (hm.stored dst) fun target _ => ?_
    have hpredicted : (ρ.sequence target).assignedLength l r (ρ.sequence source).length =
        (fun n => n) <$> target.assignedLength l r source.length := by
      have hlength : (ρ.sequence source).length = source.length := Sequence.length_map ρ.value source
      rw [hlength, id_map']
      exact Sequence.assignedLength_map ρ.value target l r source.length
    refine Outcome.bind_eq_bimap (passOn_bimap hpredicted) fun n _ => ?_
    refine Outcome.bind_eq_bimap (hm.permit rfl) fun _ _ => ?_
    have hassign := Sequence.stateAfter_assign_map ρ.value target l r source.elements
    refine Outcome.bind_eq_bimap (passOn_bimap hassign) fun t _ => ?_
    rfl
  | push seq src =>
    have hseq := hi seq (by simp [Instruction.operands])
    have hsrc := hi src (by simp [Instruction.operands])
    refine Outcome.bind_eq_bimap (hm.value hsrc) fun v _ => ?_
    refine Outcome.bind_eq_bimap (hm.handle hseq) fun id _ => ?_
    refine Outcome.bind_eq_bimap (hm.stored id) fun s _ => ?_
    have hlength : (ρ.sequence s).length = s.length := Sequence.length_map ρ.value s
    refine Outcome.bind_eq_bimap (add_bimap hlength 1) fun n _ => ?_
    refine Outcome.bind_eq_bimap (hm.permit rfl) fun _ _ => ?_
    have hpush : (ρ.sequence s).push (ρ.value v) = ρ.sequence (s.push v) :=
      Sequence.push_map ρ.value s v
    rw [hpush]
    rfl
  | release seq =>
    have hseq := hi seq (by simp [Instruction.operands])
    refine Outcome.bind_eq_bimap (hm.handle hseq) fun id _ => ?_
    refine Outcome.bind_eq_bimap (hm.stored id) fun s _ => ?_
    rfl
  | ret src => rfl

theorem set_register (hm : Mirrors ρ rest m m') {r : Register} (hr : ρ.names r) (v : Value) :
    Mirrors ρ rest { m with registers := m.registers.set r.number v }
      { m' with registers := m'.registers.set (ρ.register r).number (ρ.value v) } := by
  refine ⟨hm.limits, ?_, hm.heap⟩
  intro q hq
  by_cases heq : r.number = q.number
  · obtain rfl : r = q := congrArg Register.mk heq
    have hold := hm.getElem?_register r hr
    dsimp only
    rw [List.getElem?_set_self', List.getElem?_set_self', hold]
    cases m.registers[r.number]? <;> rfl
  · -- Another register has another name.
    have hne : (ρ.register r).number ≠ (ρ.register q).number := by
      intro hnumber
      have hsame := ρ.register_injective r q hr hq (congrArg Register.mk hnumber)
      exact heq (congrArg Register.number hsame)
    dsimp only
    rw [List.getElem?_set_ne heq, List.getElem?_set_ne hne]
    exact hm.getElem?_register q hq

theorem put (hm : Mirrors ρ rest m m') {r : Register} (hr : ρ.names r) (v : Value) :
    Agree ρ rest (fun u => u) (m.put r v) (m'.put (ρ.register r) (ρ.value v)) := by
  have hexists : (ρ.register r).number < m'.registers.length ↔ r.number < m.registers.length := by
    rw [← Nat.not_le, ← Nat.not_le, ← List.getElem?_eq_none_iff, ← List.getElem?_eq_none_iff,
      hm.getElem?_register r hr, Option.map_eq_none_iff]
  unfold Machine.put
  by_cases hlt : r.number < m.registers.length
  · rw [if_pos hlt, if_pos (hexists.mpr hlt)]
    exact ⟨rfl, hm.set_register hr v⟩
  · rw [if_neg hlt, if_neg (mt hexists.mp hlt)]
    exact ⟨rfl, hm⟩

/-- An effect under a rule is committed alike: new sequences take corresponding slots, and only operands are
loaded. -/
theorem commit (hm : Mirrors ρ rest m m') {i : Instruction} (hi : ∀ r ∈ i.operands, ρ.names r)
    {e : Effect} (hplan : Plans m i e) :
    Agree ρ rest (fun u => u) (m.commit e) (m'.commit (ρ.effect e)) := by
  cases e with
  | none => exact ⟨rfl, hm⟩
  | load dst v => exact hm.put (hi dst (hplan.loaded_mem rfl)) v
  | store dst s =>
    -- The new sequences stand in corresponding slots, so their handles correspond.
    have hstored : Mirrors ρ rest { m with heap := m.heap.add s }
        { m' with heap := m'.heap.add (ρ.sequence s) } :=
      ⟨hm.limits, hm.getElem?_register, hm.heap.add s⟩
    have hid : ρ.value (.seq ⟨m.heap.upcoming 0⟩) = .seq ⟨m'.heap.upcoming 0⟩ := by
      rw [hm.heap.upcoming 0]
      rfl
    have hput := hstored.put (hi dst (hplan.loaded_mem rfl)) (.seq ⟨m.heap.upcoming 0⟩)
    rw [hid] at hput
    exact hput
  | replace id t =>
    obtain ⟨s, hs⟩ := hplan.live rfl
    exact ⟨rfl, hm.limits, hm.getElem?_register, hm.heap.replace hs t⟩
  | release id =>
    obtain ⟨s, hs⟩ := hplan.live rfl
    exact ⟨rfl, hm.limits, hm.getElem?_register, hm.heap.remove hs⟩

/-- Each instruction ends alike on mirrored machines and keeps them mirrored. -/
theorem step (hm : Mirrors ρ rest m m') {i : Instruction} (hi : ∀ r ∈ i.operands, ρ.names r) :
    Agree ρ rest (fun u => u) (m.step i) (m'.step (ρ.instruction i)) := by
  refine Agree.andThen (hm.plan hi) hm fun e he => ?_
  exact hm.commit hi (plans_of_plan_eq_ok he)

theorem takeOut (hm : Mirrors ρ rest m m') {r : Register} (hr : ρ.names r) :
    Agree ρ rest ρ.value (Machine.takeOut r m).ending
      (Machine.takeOut (ρ.register r) m').ending := by
  rw [ending_takeOut, ending_takeOut]
  refine Agree.andThen (hm.value hr) hm fun v _ => ?_
  exact ⟨rfl, hm.set_register hr .nothing⟩

/-- A run keeps the machines mirrored too, from any place of a program on. -/
theorem runFrom (length pc : Nat) {p : Program} (hp : ∀ i ∈ p, ∀ r ∈ i.operands, ρ.names r)
    (hm : Mirrors ρ rest m m') :
    Agree ρ rest ρ.value (Machine.runFrom length pc p m).ending
      (Machine.runFrom length pc (p.map ρ.instruction) m').ending := by
  induction p generalizing pc m m' with
  | nil =>
    rw [List.map_nil, ending_runFrom_nil, ending_runFrom_nil]
    exact ⟨rfl, hm⟩
  | cons i p ih =>
    have hi := hp i List.mem_cons_self
    have hstep := hm.step hi
    rw [List.map_cons, ending_runFrom_cons, ending_runFrom_cons]
    refine Agree.andThen hstep.outcome hstep.machine fun _ _ => ?_
    rw [ρ.returned?_instruction]
    cases hreturned : i.returned? with
    | none => exact ih (pc + 1) (fun j hj => hp j (List.mem_cons_of_mem _ hj)) hstep.machine
    | some src =>
      have hsrc : src ∈ i.operands := by
        cases i with
        | ret r =>
          obtain rfl := Option.some.inj hreturned
          exact List.mem_cons_self
        | _ => cases hreturned
      exact hstep.machine.takeOut (hi src hsrc)

/-- A run ends in corresponding ways on machines that mirror each other once their registers are
cleared. -/
theorem run (hm : Mirrors ρ rest (clearRegisters m) (clearRegisters m')) {p : Program}
    (hp : ∀ i ∈ p, ∀ r ∈ i.operands, ρ.names r) :
    Agree ρ rest ρ.value (Machine.run p m).ending (Machine.run (p.map ρ.instruction) m').ending := by
  rw [ending_run, ending_run, List.length_map]
  exact hm.runFrom p.length 0 hp

end Mirrors

end SequenceMachine.Machine
