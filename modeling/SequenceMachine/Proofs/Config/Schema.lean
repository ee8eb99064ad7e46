import SequenceMachine.Config.Document
import SequenceMachine.Proofs.Toml.Fields

/-!
The settings that a document gives. A table describes settings (`Config.Describes`) if it has no other
fields than these have, each given value is of its kind and in its range, and what is left out has its
default. Whatever reads the documents (`Toml.IsReader`), settings are read from a text exactly if it is
valid, its table describes them and there is a register.
-/

namespace SequenceMachine

open Toml (Fields)

section Gives
variable {α : Type} {fields : Fields} {key : String} {v : Toml.Value} {means : Toml.Value → α → Prop}
  {default a : α}

/-- What a table gives for a key: what the value of its field means, or the default if there is no such
field. -/
inductive Toml.Fields.Gives (fields : Fields) (key : String) (means : Toml.Value → α → Prop)
    (default : α) : α → Prop
  | value {v : Toml.Value} {a : α} (h : (key, v) ∈ fields) (hv : means v a) :
    Gives fields key means default a
  | absent (h : ∀ v, (key, v) ∉ fields) : Gives fields key means default default

/-- What a table gives for a key does not depend on the order of its fields. -/
theorem Toml.Fields.Gives.perm {fields' : Fields} (hg : fields.Gives key means default a)
    (hperm : fields.Perm fields') : fields'.Gives key means default a := by
  cases hg with
  | value hmem hv => exact .value (hperm.mem_iff.mp hmem) hv
  | absent habsent => exact .absent fun v hmem => habsent v (hperm.mem_iff.mpr hmem)

theorem Toml.Fields.Gives.cons_of_ne (hg : fields.Gives key means default a) {k : String}
    (hne : k ≠ key) (w : Toml.Value) : Fields.Gives ((k, w) :: fields) key means default a := by
  cases hg with
  | value hmem hv => exact .value (List.mem_cons_of_mem _ hmem) hv
  | absent habsent =>
    refine .absent fun v hmem => ?_
    rcases List.mem_cons.mp hmem with heq | hmem'
    · exact hne (Prod.mk.inj heq).1.symm
    · exact habsent v hmem'

/-- A table without repeated keys gives only what the one value of the key means. -/
theorem Toml.Fields.Gives.means_of_mem (hg : fields.Gives key means default a)
    (h : (fields.map Prod.fst).Nodup) (hmem : (key, v) ∈ fields) : means v a := by
  cases hg with
  | value hmem' hv =>
    have hsame := (Fields.lookup_eq_some_iff h).mpr hmem'
    obtain rfl := Option.some.inj (hsame.symm.trans ((Fields.lookup_eq_some_iff h).mpr hmem))
    exact hv
  | absent habsent => exact absurd hmem (habsent v)

/-- A field is read as what the table gives for it, where its values are read as what they mean. -/
theorem Config.field?_eq_some_iff {read? : Toml.Value → Option α} (h : (fields.map Prod.fst).Nodup)
    (hread : ∀ v, (key, v) ∈ fields → ∀ a, read? v = some a ↔ means v a) :
    field? fields key read? default = some a ↔ fields.Gives key means default a := by
  unfold field?
  cases hlookup : fields.lookup key with
  | none =>
    have habsent := Fields.lookup_eq_none_iff.mp hlookup
    constructor
    · intro heq
      obtain rfl := Option.some.inj heq
      exact .absent habsent
    · rintro (⟨hmem, -⟩ | -)
      · exact absurd hmem (habsent _)
      · rfl
  | some v =>
    have hmem := (Fields.lookup_eq_some_iff h).mp hlookup
    constructor
    · intro hv
      exact .value hmem ((hread v hmem a).mp hv)
    · intro hg
      exact (hread v hmem a).mpr (hg.means_of_mem h hmem)

end Gives

def Toml.Value.IsSize (v : Toml.Value) (n : Nat) : Prop := v = .integer n ∧ n ≤ Size.max

/-- Only an integer within the range of sizes is read as one; no other kind of number is converted. -/
theorem Toml.Value.size?_eq_some_iff {v : Toml.Value} {n : Nat} : v.size? = some n ↔ v.IsSize n := by
  unfold IsSize
  cases v with
  | integer i =>
    simp only [size?, Size.ofInt?, Option.ite_none_right_eq_some, Option.some.injEq,
      Toml.Value.integer.injEq]
    omega
  | _ => simp [size?]

theorem Toml.Value.flag?_eq_some_iff {v : Toml.Value} {flag : Bool} :
    v.flag? = some flag ↔ v = .boolean flag := by
  cases v <;> simp [flag?]

namespace Limits

variable {v : Toml.Value} {limits : Limits}

def Bounds (v : Toml.Value) (limits : Limits) : Prop := ∃ n, v.IsSize n ∧ limits = ⟨some n⟩

/-- The limits that a value stands for: by the name of their field in a table, or by its place in an
array. -/
inductive StandsFor : Toml.Value → Limits → Prop
  | table {origin : Toml.Origin} {fields : Fields} {limits : Limits}
    (known : ∀ field ∈ fields, field.1 = "max_sequence_len")
    (gives : fields.Gives "max_sequence_len" Bounds unlimited limits) :
    StandsFor (.table origin fields) limits
  | noItems : StandsFor (.array []) unlimited
  | firstItem {v : Toml.Value} {rest : List Toml.Value} {limits : Limits} (h : Bounds v limits) :
    StandsFor (.array (v :: rest)) limits

theorem map_size?_eq_some_iff :
    v.size?.map (fun length => (⟨some length⟩ : Limits)) = some limits ↔ Bounds v limits := by
  simp only [Option.map_eq_some_iff, Toml.Value.size?_eq_some_iff, Bounds, eq_comm (a := limits)]

/-- The limits are read in both of their forms, by name and by place. -/
theorem ofValue?_eq_some_iff (h : v.Distinct) : ofValue? v = some limits ↔ StandsFor v limits := by
  cases v with
  | table origin fields =>
    have hgives : Config.field? fields "max_sequence_len"
        (fun v => v.size?.map fun length => ⟨some length⟩) unlimited = some limits ↔
          Fields.Gives fields "max_sequence_len" Bounds unlimited limits :=
      Config.field?_eq_some_iff (Fields.Distinct.of_table h).nodup fun _ _ _ => map_size?_eq_some_iff
    rw [ofValue?, Option.ite_none_right_eq_some]
    constructor
    · rintro ⟨hknown, hlimits⟩
      exact .table (by simpa using hknown) (hgives.mp hlimits)
    · rintro (⟨known, gives⟩ | -)
      exact ⟨by simpa using known, hgives.mpr gives⟩
  | array items =>
    cases items with
    | nil =>
      constructor
      · intro heq
        obtain rfl := Option.some.inj heq
        exact .noItems
      · rintro (- | -)
        rfl
    | cons v rest =>
      rw [ofValue?, map_size?_eq_some_iff]
      constructor
      · exact .firstItem
      · rintro (- | - | hv)
        exact hv
  | _ =>
    constructor
    · intro heq
      cases heq
    · intro hstands
      cases hstands

end Limits

namespace Config

structure Describes (fields : Fields) (config : Config) : Prop where
  known : ∀ field ∈ fields, field.1 ∈ ["registers", "trace_instructions", "limits"]
  registers : fields.Gives "registers" Toml.Value.IsSize 16 config.registers
  traceInstructions : fields.Gives "trace_instructions" (fun v flag => v = .boolean flag) false
    config.traceInstructions
  limits : fields.Gives "limits" Limits.StandsFor ⟨none⟩ config.limits

/-- Settings are read from a table exactly if it describes them, which an unknown field prevents. -/
theorem ofFields?_eq_some_iff {fields : Fields} {config : Config} (h : fields.Distinct) :
    ofFields? fields = some config ↔ Describes fields config := by
  have hregisters (n : Nat) :
      field? fields "registers" Toml.Value.size? default.registers = some n ↔
        fields.Gives "registers" Toml.Value.IsSize 16 n :=
    field?_eq_some_iff h.nodup fun _ _ _ => Toml.Value.size?_eq_some_iff
  have htrace (flag : Bool) :
      field? fields "trace_instructions" Toml.Value.flag? default.traceInstructions = some flag ↔
        fields.Gives "trace_instructions" (fun v flag => v = .boolean flag) false flag :=
    field?_eq_some_iff h.nodup fun _ _ _ => Toml.Value.flag?_eq_some_iff
  have hlimits (limits : Limits) :
      field? fields "limits" Limits.ofValue? default.limits = some limits ↔
        fields.Gives "limits" Limits.StandsFor ⟨none⟩ limits :=
    field?_eq_some_iff h.nodup fun v hmem _ => Limits.ofValue?_eq_some_iff (h.values ("limits", v) hmem)
  rw [ofFields?, Option.ite_none_right_eq_some]
  simp only [Option.bind_eq_bind, Option.bind_eq_some_iff, hregisters, htrace, hlimits]
  constructor
  · rintro ⟨hknown, registers, hr, trace, ht, limits, hl, heq⟩
    obtain rfl := Option.some.inj heq
    exact ⟨by simpa [keys] using hknown, hr, ht, hl⟩
  · rintro ⟨hknown, hr, ht, hl⟩
    exact ⟨by simpa [keys] using hknown, config.registers, hr, config.traceInstructions, ht,
      config.limits, hl, rfl⟩

/-- Settings have no registers only where a document asks for none, since the default is another. -/
theorem Describes.registers_eq_zero_iff {fields : Fields} {config : Config} (h : Describes fields config)
    (hdistinct : fields.Distinct) :
    config.registers = 0 ↔ ("registers", .integer 0) ∈ fields := by
  have hgives := h.registers
  generalize config.registers = count at hgives
  constructor
  · rintro rfl
    cases hgives with
    | value hmem hv => exact hv.1 ▸ hmem
  · intro hmem
    obtain ⟨hzero, -⟩ := hgives.means_of_mem hdistinct.nodup hmem
    exact (Int.ofNat.inj (Toml.Value.integer.inj hzero)).symm

/-- The order of the fields makes no difference. -/
theorem Describes.perm {fields fields' : Fields} {config : Config} (h : Describes fields config)
    (hperm : fields.Perm fields') : Describes fields' config where
  known field hmem := h.known field (hperm.mem_iff.mpr hmem)
  registers := h.registers.perm hperm
  traceInstructions := h.traceInstructions.perm hperm
  limits := h.limits.perm hperm

theorem ofFields?_perm {fields fields' : Fields} (h : fields.Distinct) (hperm : fields.Perm fields') :
    ofFields? fields = ofFields? fields' := by
  ext config
  rw [ofFields?_eq_some_iff h, ofFields?_eq_some_iff (h.perm hperm)]
  exact ⟨fun hd => hd.perm hperm, fun hd => hd.perm hperm.symm⟩

section Document
variable {Valid : String → Prop} {parse? : String → Option Fields} {text : String} {fields : Fields}
  {config : Config}

theorem bind_ofFields?_eq_some_iff (h : Toml.IsReader Valid parse?) :
    parse? text >>= ofFields? = some config ↔
      ∃ fields, parse? text = some fields ∧ Describes fields config := by
  rw [Option.bind_eq_bind, Option.bind_eq_some_iff]
  refine exists_congr fun fields => and_congr_right fun hparse => ?_
  exact ofFields?_eq_some_iff (h.distinct text fields hparse)

/-- The number of registers is looked at last, after all fields have been read. -/
theorem ofDocument_of_describes (h : Toml.IsReader Valid parse?) (hparse : parse? text = some fields)
    (hdescribes : Describes fields config) :
    ofDocument parse? text = if config.registers = 0 then .error .noRegisters else .ok config := by
  rw [ofDocument, (bind_ofFields?_eq_some_iff h).mpr ⟨fields, hparse, hdescribes⟩]

/-- A text that is not valid is rejected like one whose table describes no settings. -/
theorem ofDocument_of_not_describes (h : Toml.IsReader Valid parse?)
    (hnot : ∀ fields, parse? text = some fields → ∀ config, ¬ Describes fields config) :
    ofDocument parse? text = .error .invalidDocument := by
  have hnone : parse? text >>= ofFields? = none := by
    refine Option.eq_none_iff_forall_ne_some.mpr fun config hsome => ?_
    obtain ⟨fields, hparse, hdescribes⟩ := (bind_ofFields?_eq_some_iff h).mp hsome
    exact hnot fields hparse config hdescribes
  rw [ofDocument, hnone]

/-- A text either has a table that describes settings, which decide the result, or it is rejected. -/
theorem ofDocument_cases (h : Toml.IsReader Valid parse?) (text : String) :
    (∃ fields config, parse? text = some fields ∧ Describes fields config ∧
      ofDocument parse? text = if config.registers = 0 then .error .noRegisters else .ok config) ∨
    (∀ fields, parse? text = some fields → ∀ config, ¬ Describes fields config) ∧
      ofDocument parse? text = .error .invalidDocument := by
  by_cases hfound : ∃ fields config, parse? text = some fields ∧ Describes fields config
  · obtain ⟨fields, config, hparse, hdescribes⟩ := hfound
    exact .inl ⟨fields, config, hparse, hdescribes, ofDocument_of_describes h hparse hdescribes⟩
  · have hnot : ∀ fields, parse? text = some fields → ∀ config, ¬ Describes fields config :=
      fun fields hparse config hdescribes => hfound ⟨fields, config, hparse, hdescribes⟩
    exact .inr ⟨hnot, ofDocument_of_not_describes h hnot⟩

/-- Settings are read from the valid texts whose tables describe them, with a register at least. -/
theorem ofDocument_eq_ok_iff (h : Toml.IsReader Valid parse?) :
    ofDocument parse? text = .ok config ↔
      Valid text ∧ 1 ≤ config.registers ∧ ∃ fields, parse? text = some fields ∧ Describes fields config := by
  constructor
  · intro hok
    rcases ofDocument_cases h text with ⟨fields, found, hparse, hdescribes, hread⟩ | ⟨-, hread⟩
    · rw [hok] at hread
      split at hread
      · cases hread
      · next hne =>
        obtain rfl := Except.ok.inj hread
        exact ⟨h.valid_iff.mpr ⟨fields, hparse⟩, Nat.one_le_iff_ne_zero.mpr hne, fields, hparse, hdescribes⟩
    · rw [hok] at hread
      cases hread
  · rintro ⟨-, hpos, fields, hparse, hdescribes⟩
    rw [ofDocument_of_describes h hparse hdescribes, if_neg (Nat.one_le_iff_ne_zero.mp hpos)]

/-- The one other error is reported only of a document that is valid otherwise. -/
theorem ofDocument_eq_noRegisters_iff (h : Toml.IsReader Valid parse?) :
    ofDocument parse? text = .error .noRegisters ↔
      Valid text ∧ ∃ fields config, parse? text = some fields ∧ Describes fields config ∧
        ("registers", .integer 0) ∈ fields := by
  constructor
  · intro herror
    rcases ofDocument_cases h text with ⟨fields, config, hparse, hdescribes, hread⟩ | ⟨-, hread⟩
    · rw [herror] at hread
      split at hread
      · next hzero =>
        have hmem := (hdescribes.registers_eq_zero_iff (h.distinct text fields hparse)).mp hzero
        exact ⟨h.valid_iff.mpr ⟨fields, hparse⟩, fields, config, hparse, hdescribes, hmem⟩
      · cases hread
    · rw [herror] at hread
      cases hread
  · rintro ⟨-, fields, config, hparse, hdescribes, hmem⟩
    have hzero := (hdescribes.registers_eq_zero_iff (h.distinct text fields hparse)).mpr hmem
    rw [ofDocument_of_describes h hparse hdescribes, if_pos hzero]

/-- A text is rejected as a document if it is none, or if its table describes no settings, whatever it says
of registers. -/
theorem ofDocument_eq_invalidDocument_iff (h : Toml.IsReader Valid parse?) :
    ofDocument parse? text = .error .invalidDocument ↔
      ¬ Valid text ∨ ∃ fields, parse? text = some fields ∧ ∀ config, ¬ Describes fields config := by
  constructor
  · intro herror
    rcases ofDocument_cases h text with ⟨fields, config, -, -, hread⟩ | ⟨hnot, -⟩
    · rw [herror] at hread
      split at hread
      · cases hread
      · cases hread
    · by_cases hvalid : Valid text
      · obtain ⟨fields, hparse⟩ := h.accepts text hvalid
        exact .inr ⟨fields, hparse, hnot fields hparse⟩
      · exact .inl hvalid
  · intro hrejected
    refine ofDocument_of_not_describes h fun fields hparse config hdescribes => ?_
    rcases hrejected with hinvalid | ⟨found, hfound, hnot⟩
    · exact hinvalid (h.valid_iff.mpr ⟨fields, hparse⟩)
    · obtain rfl := Option.some.inj (hparse.symm.trans hfound)
      exact hnot config hdescribes

/-- Two texts whose tables have the same fields in another order are read alike. -/
theorem ofDocument_eq_of_perm (h : Toml.IsReader Valid parse?) {text' : String} {fields' : Fields}
    (hparse : parse? text = some fields) (hparse' : parse? text' = some fields')
    (hperm : fields.Perm fields') : ofDocument parse? text = ofDocument parse? text' := by
  have hread := ofFields?_perm (h.distinct text fields hparse) hperm
  rw [ofDocument, ofDocument, hparse, hparse', Option.bind_eq_bind, Option.bind_some, Option.bind_some,
    hread]

end Document

end Config

end SequenceMachine
