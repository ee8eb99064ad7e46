import SequenceMachine.Proofs.Machine.Plan

namespace SequenceMachine

def Instruction.operands : Instruction → List Register
  | .loadInt dst _ => [dst]
  | .loadStr dst _ => [dst]
  | .newSeq dst _ _ => [dst]
  | .collect dst srcs _ => dst :: srcs
  | .len dst seq => [dst, seq]
  | .index dst seq place => [dst, seq, place]
  | .setIndex seq place src => [seq, place, src]
  | .slice dst seq left right => [dst, seq, left, right]
  | .setSlice seq left right src => [seq, left, right, src]
  | .push seq src => [seq, src]
  | .release seq => [seq]
  | .ret src => [src]

namespace Machine

/-- `Plans m i e`: in the state `m` the instruction `i` has the effect `e`. -/
inductive Plans (m : Machine) : Instruction → Effect → Prop
  | loadInt (dst : Register) (val : Int) : Plans m (.loadInt dst val) (.load dst (.int val))
  | loadStr (dst : Register) (val : String) : Plans m (.loadStr dst val) (.load dst (.str val))
  | newSeq (dst : Register) {length : Nat} (mode : Mode) (hlength : length ≤ m.config.limits.ceiling) :
    Plans m (.newSeq dst length mode) (.store dst ⟨List.replicate length .nothing, mode⟩)
  | collect (dst : Register) {srcs : List Register} (mode : Mode) {vs : List Value}
    (hlength : srcs.length ≤ m.config.limits.ceiling) (hvs : srcs.mapM m.value = .ok vs) :
    Plans m (.collect dst srcs mode) (.store dst ⟨vs, mode⟩)
  | len (dst : Register) {seq : Register} {id : Handle} {s : Sequence Value}
    (hid : m.handle seq = .ok id) (hs : m.heap.get? id = some s) :
    Plans m (.len dst seq) (.load dst (.int (Index.ofLength s.length)))
  | index (dst : Register) {seq index : Register} {k : Int} {id : Handle} {s : Sequence Value}
    {v : Value} (hk : m.int index = .ok k) (hid : m.handle seq = .ok id)
    (hs : m.heap.get? id = some s) (hv : s.get k = .ok v) :
    Plans m (.index dst seq index) (.load dst v)
  | setIndex {seq index src : Register} {k : Int} {v : Value} {id : Handle} {s t : Sequence Value}
    (hk : m.int index = .ok k) (hv : m.value src = .ok v) (hid : m.handle seq = .ok id)
    (hs : m.heap.get? id = some s) (ht : Action.stateAfter (Sequence.set k v) s = .ok t) :
    Plans m (.setIndex seq index src) (.replace id t)
  | slice (dst : Register) {seq left right : Register} {l r : Int} {id : Handle} {s t : Sequence Value}
    (hl : m.int left = .ok l) (hr : m.int right = .ok r) (hid : m.handle seq = .ok id)
    (hs : m.heap.get? id = some s) (hlength : s.sliceLength l r ≤ m.config.limits.ceiling)
    (ht : (s.slice l r : Outcome Error (Sequence Value)) = .ok t) :
    Plans m (.slice dst seq left right) (.store dst t)
  | setSlice {seq left right src : Register} {l r : Int} {dst id : Handle} {target source t : Sequence Value}
    {length : Nat} (hl : m.int left = .ok l) (hr : m.int right = .ok r)
    (hdst : m.handle seq = .ok dst) (hid : m.handle src = .ok id)
    (hsource : m.heap.get? id = some source) (htarget : m.heap.get? dst = some target)
    (hlength : target.assignedLength l r source.length = .ok length)
    (hle : length ≤ m.config.limits.ceiling)
    (ht : Action.stateAfter (Sequence.assign l r source.elements) target = .ok t) :
    Plans m (.setSlice seq left right src) (.replace dst t)
  | push {seq src : Register} {v : Value} {id : Handle} {s : Sequence Value}
    (hv : m.value src = .ok v) (hid : m.handle seq = .ok id) (hs : m.heap.get? id = some s)
    (hlength : s.length + 1 ≤ m.config.limits.ceiling) :
    Plans m (.push seq src) (.replace id (s.push v))
  | release {seq : Register} {id : Handle} {s : Sequence Value} (hid : m.handle seq = .ok id)
    (hs : m.heap.get? id = some s) : Plans m (.release seq) (.release id)
  | ret (src : Register) : Plans m (.ret src) .none

variable {m : Machine} {i : Instruction} {e : Effect}

/-- A permitted length is within the limits. -/
theorem le_ceiling_of_permit {length : Nat} (h : m.permit length = .ok ()) :
    length ≤ m.config.limits.ceiling := by
  unfold permit at h
  split at h
  · cases h
  · omega

theorem permit_eq_ok {length : Nat} (h : length ≤ m.config.limits.ceiling) :
    m.permit length = .ok () := by
  unfold permit
  rw [if_neg (Nat.not_lt.mpr h)]

theorem stored_eq_ok {id : Handle} {s : Sequence Value} (h : m.heap.get? id = some s) :
    m.stored id = .ok s := stored_eq_ok_iff.mpr h

theorem int_eq_ok_iff {r : Register} {k : Int} :
    m.int r = .ok k ↔ m.registers[r.number]? = some (.int k) := by
  unfold int value
  rcases m.registers[r.number]? with _ | v
  · simp
  · cases v <;> simp [Value.asInt?]

/-- An operand is read as a handle exactly if its register holds one, live or not. -/
theorem handle_eq_ok_iff {r : Register} {id : Handle} :
    m.handle r = .ok id ↔ m.registers[r.number]? = some (.seq id) := by
  unfold handle value
  rcases m.registers[r.number]? with _ | v
  · simp
  · cases v <;> simp [Value.asSeq?]

theorem passOn_eq_ok_iff {α : Type} {x : Outcome Sequence.Error α} {a : α} :
    passOn x = .ok a ↔ x = .ok a := Outcome.mapError_eq_ok_iff

/-- A plan that was found follows the rule of its instruction. -/
theorem plans_of_plan_eq_ok (h : m.plan i = .ok e) : Plans m i e := by
  -- A plan was found, so each of its reads and checks succeeded.
  cases i with
  | loadInt dst val =>
    obtain rfl := Outcome.ok.inj h
    exact .loadInt dst val
  | loadStr dst val =>
    obtain rfl := Outcome.ok.inj h
    exact .loadStr dst val
  | newSeq dst length mode =>
    simp only [plan, Outcome.bind_eq_ok_iff] at h
    obtain ⟨_, hlength, s, hs, h⟩ := h
    obtain rfl := Outcome.ok.inj h
    unfold Sequence.replicate at hs
    split at hs
    · obtain rfl := Outcome.ok.inj hs
      exact .newSeq dst mode (le_ceiling_of_permit hlength)
    · cases hs
  | collect dst srcs mode =>
    simp only [plan, Outcome.bind_eq_ok_iff] at h
    obtain ⟨_, hlength, vs, hvs, h⟩ := h
    obtain rfl := Outcome.ok.inj h
    exact .collect dst mode (le_ceiling_of_permit hlength) hvs
  | len dst seq =>
    simp only [plan, Outcome.bind_eq_ok_iff, stored_eq_ok_iff] at h
    obtain ⟨id, hid, s, hs, h⟩ := h
    obtain rfl := Outcome.ok.inj h
    exact .len dst hid hs
  | index dst seq index =>
    simp only [plan, Outcome.bind_eq_ok_iff, stored_eq_ok_iff, passOn_eq_ok_iff] at h
    obtain ⟨k, hk, id, hid, s, hs, v, hv, h⟩ := h
    obtain rfl := Outcome.ok.inj h
    exact .index dst hk hid hs hv
  | setIndex seq index src =>
    simp only [plan, Outcome.bind_eq_ok_iff, stored_eq_ok_iff, passOn_eq_ok_iff] at h
    obtain ⟨k, hk, v, hv, id, hid, s, hs, t, ht, h⟩ := h
    obtain rfl := Outcome.ok.inj h
    exact .setIndex hk hv hid hs ht
  | slice dst seq left right =>
    simp only [plan, Outcome.bind_eq_ok_iff, stored_eq_ok_iff] at h
    obtain ⟨l, hl, r, hr, id, hid, s, hs, _, hlength, t, ht, h⟩ := h
    obtain rfl := Outcome.ok.inj h
    exact .slice dst hl hr hid hs (le_ceiling_of_permit hlength) ht
  | setSlice seq left right src =>
    simp only [plan, Outcome.bind_eq_ok_iff, stored_eq_ok_iff, passOn_eq_ok_iff] at h
    obtain ⟨l, hl, r, hr, dst, hdst, id, hid, source, hsource, target, htarget, length, hlength, _, hle,
      t, ht, h⟩ := h
    obtain rfl := Outcome.ok.inj h
    exact .setSlice hl hr hdst hid hsource htarget hlength (le_ceiling_of_permit hle) ht
  | push seq src =>
    simp only [plan, Outcome.bind_eq_ok_iff, stored_eq_ok_iff] at h
    obtain ⟨v, hv, id, hid, s, hs, length, hlength, _, hle, h⟩ := h
    obtain rfl := Outcome.ok.inj h
    obtain rfl := Size.eq_of_add_eq_ok hlength
    exact .push hv hid hs (le_ceiling_of_permit hle)
  | release seq =>
    simp only [plan, Outcome.bind_eq_ok_iff, stored_eq_ok_iff] at h
    obtain ⟨id, hid, s, hs, h⟩ := h
    obtain rfl := Outcome.ok.inj h
    exact .release hid hs
  | ret src =>
    obtain rfl := Outcome.ok.inj h
    exact .ret src

/-- The rule of an instruction has all that its plan asks for. -/
theorem plan_eq_ok_of_plans (h : Plans m i e) : m.plan i = .ok e := by
  have hcapacity : m.config.limits.ceiling ≤ Size.capacity := m.config.limits.ceiling_le_capacity
  cases h with
  | loadInt | loadStr | ret => rfl
  | newSeq dst mode hlength =>
    have hfits := Nat.le_trans hlength hcapacity
    simp [plan, permit_eq_ok hlength, Sequence.replicate, hfits]
  | collect dst mode hlength hvs => simp [plan, permit_eq_ok hlength, hvs]
  | len dst hid hs => simp [plan, hid, stored_eq_ok hs]
  | index dst hk hid hs hv => simp [plan, hk, hid, stored_eq_ok hs, hv, passOn]
  | setIndex hk hv hid hs ht => simp [plan, hk, hv, hid, stored_eq_ok hs, ht, passOn]
  | slice dst hl hr hid hs hlength ht =>
    simp [plan, hl, hr, hid, stored_eq_ok hs, permit_eq_ok hlength, ht]
  | setSlice hl hr hdst hid hsource htarget hlength hle ht =>
    simp [plan, hl, hr, hdst, hid, stored_eq_ok hsource, stored_eq_ok htarget, hlength,
      permit_eq_ok hle, ht, passOn]
  | push hv hid hs hlength =>
    -- One more than a permitted length is a size.
    have hmax : Size.capacity ≤ Size.max := by decide
    have hsum := Nat.le_trans (Nat.le_trans hlength hcapacity) hmax
    simp [plan, hv, hid, stored_eq_ok hs, Size.add_eq_ok hsum, permit_eq_ok hlength]
  | release hid hs => simp [plan, hid, stored_eq_ok hs]

def Effect.target? : Effect → Option Handle
  | .replace id _ => some id
  | .release id => some id
  | _ => Option.none

/-- An instruction replaces and removes live sequences only. -/
theorem Plans.live (h : Plans m i e) {id : Handle} (hid : e.target? = some id) :
    ∃ s, m.heap.get? id = some s := by
  cases h with
  | setIndex hk hv hid' hs ht =>
    obtain rfl := Option.some.inj hid
    exact ⟨_, hs⟩
  | setSlice hl hr hdst hid' hsource htarget hlength hle ht =>
    obtain rfl := Option.some.inj hid
    exact ⟨_, htarget⟩
  | push hv hid' hs hlength =>
    obtain rfl := Option.some.inj hid
    exact ⟨_, hs⟩
  | release hid' hs =>
    obtain rfl := Option.some.inj hid
    exact ⟨_, hs⟩
  | _ => cases hid

def Effect.loaded? : Effect → Option Register
  | .load dst _ => some dst
  | .store dst _ => some dst
  | _ => Option.none

/-- The register that is loaded is among the operands. -/
theorem Plans.loaded_mem {r : Register} (h : Plans m i e) (hr : e.loaded? = some r) :
    r ∈ i.operands := by
  cases h with
  | loadInt | loadStr | newSeq | collect | len | index | slice =>
    obtain rfl := Option.some.inj hr
    exact List.mem_cons_self
  | _ => cases hr

end Machine

end SequenceMachine
