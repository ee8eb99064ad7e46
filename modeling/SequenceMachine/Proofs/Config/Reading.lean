import SequenceMachine.Proofs.Config.Schema
import SequenceMachine.Proofs.Toml.Distinct
import SequenceMachine.Proofs.Toml.Written

namespace SequenceMachine.Config

open Toml (Fields)

inductive Setting where
  | registers (count : Nat)
  | traceInstructions (flag : Bool)
  | limit (length : Nat)
  | limitItem (length : Nat)

namespace Setting

def key : Setting → String
  | registers _ => "registers"
  | traceInstructions _ => "trace_instructions"
  | limit _ | limitItem _ => "limits"

def further : Setting → List String
  | limit _ => ["max_sequence_len"]
  | _ => []

def valueText : Setting → String
  | registers count => count.repr
  | traceInstructions flag => toString flag
  | limit length => length.repr
  | limitItem length => "[" ++ length.repr ++ "]"

def value : Setting → Toml.Value
  | registers count => .integer count
  | traceInstructions flag => .boolean flag
  | limit length => .integer length
  | limitItem length => .array [.integer length]

def field : Setting → String × Toml.Value
  | registers count => ("registers", .integer count)
  | traceInstructions flag => ("trace_instructions", .boolean flag)
  | limit length => ("limits", .table .dotted [("max_sequence_len", .integer length)])
  | limitItem length => ("limits", .array [.integer length])

def text (x : Setting) : String := ".".intercalate (x.key :: x.further) ++ " = " ++ x.valueText

def document (settings : List Setting) : String := "\n".intercalate (settings.map text)

def InRange : Setting → Prop
  | registers count => count ≤ Size.max
  | traceInstructions _ => True
  | limit length | limitItem length => length ≤ Size.max

def put : Setting → Config → Config
  | registers count, config => { config with registers := count }
  | traceInstructions flag, config => { config with traceInstructions := flag }
  | limit length, config | limitItem length, config => { config with limits := ⟨some length⟩ }

def entry (x : Setting) : Toml.Entry := ⟨x.key, x.further, x.valueText.toList, x.value⟩

theorem field_entry (x : Setting) : x.entry.field = x.field := by
  cases x <;> rfl

theorem fst_field (x : Setting) : x.field.1 = x.key := by
  cases x <;> rfl

theorem toList_text (x : Setting) : x.text.toList = x.entry.chars := by
  rw [text, String.toList_append, String.toList_append, String.toList_intercalate, List.map_cons,
    Toml.intercalate_cons_eq_append, List.flatMap_map, List.append_assoc]
  rfl

theorem key_mem (x : Setting) : x.key ∈ ["registers", "trace_instructions", "limits"] := by
  cases x <;> simp [key]

theorem mem_further {x : Setting} {part : String} (h : part ∈ x.further) :
    part = "max_sequence_len" := by
  cases x with
  | limit length => exact List.mem_singleton.mp h
  | _ => cases h

theorem length_further_le (x : Setting) : x.further.length ≤ 1 := by
  cases x with
  | limit length => exact Nat.le_refl 1
  | _ => exact Nat.zero_le 1

/-- Each value is written so that it is read back. -/
theorem writes_value (x : Setting) : Toml.Writes x.valueText.toList x.value := by
  cases x with
  | registers count =>
    rw [valueText, Nat.toList_repr]
    exact Toml.writes_toDigits count
  | traceInstructions flag =>
    cases flag with
    | true => exact Toml.writes_true
    | false => exact Toml.writes_false
  | limit length =>
    rw [valueText, Nat.toList_repr]
    exact Toml.writes_toDigits length
  | limitItem length =>
    rw [valueText, String.toList_append, String.toList_append, Nat.toList_repr]
    exact .item (Toml.isWord_toDigits length) (Toml.scalar?_toDigits length)

/-- Every line of settings is plain. -/
theorem plain_entry (x : Setting) : x.entry.Plain where
  first := by
    have hkeys : ∀ k ∈ ["registers", "trace_instructions", "limits"], Toml.IsBarePart k := by decide
    exact hkeys x.key x.key_mem
  further part hpart := by
    obtain rfl := mem_further hpart
    decide
  short := Nat.lt_of_le_of_lt x.length_further_le (by decide)
  written := x.writes_value

variable {settings : List Setting}

/-- A document of settings is read as the table of their fields, in the same order. -/
theorem parse?_document (h : (settings.map key).Nodup) :
    Toml.parse? (document settings) = some (settings.map field) := by
  have hfirst : ((settings.map entry).map Toml.Entry.first).Nodup := by
    rw [List.map_map]
    exact h
  have htext : (document settings).toList =
      ['\n'].intercalate ((settings.map entry).map Toml.Entry.chars) := by
    rw [document, String.toList_intercalate, List.map_map, List.map_map]
    refine congrArg _ (List.map_congr_left fun x _ => toList_text x)
  have hplain : ∀ e ∈ settings.map entry, e.Plain := List.forall_mem_map.mpr fun x _ => plain_entry x
  rw [Toml.parse?_document hplain hfirst htext, List.map_map]
  exact congrArg some (List.map_congr_left fun x _ => field_entry x)

/-- An empty table describes the default settings. -/
theorem describes_nil : Describes [] default :=
  ⟨fun _ h => absurd h List.not_mem_nil, .absent fun _ => List.not_mem_nil, .absent fun _ => List.not_mem_nil,
    .absent fun _ => List.not_mem_nil⟩

/-- A further line in front gives its value and leaves the others as they are. -/
theorem describes_cons {x : Setting} {fields : Fields} {config : Config} (h : Describes fields config)
    (hrange : x.InRange) : Describes (x.field :: fields) (x.put config) := by
  have hknown : ∀ field ∈ x.field :: fields,
      field.1 ∈ ["registers", "trace_instructions", "limits"] :=
    List.forall_mem_cons.mpr ⟨x.fst_field ▸ x.key_mem, h.known⟩
  have hregisters := h.registers.cons_of_ne (k := x.field.1) (w := x.field.2)
  have htrace := h.traceInstructions.cons_of_ne (k := x.field.1) (w := x.field.2)
  have hlimits := h.limits.cons_of_ne (k := x.field.1) (w := x.field.2)
  have hbounds {length : Nat} (hlength : length ≤ Size.max) :
      Limits.Bounds (.integer length) ⟨some length⟩ := ⟨length, ⟨rfl, hlength⟩, rfl⟩
  cases x with
  | registers count =>
    exact ⟨hknown, .value List.mem_cons_self ⟨rfl, hrange⟩, htrace (by simp [field]),
      hlimits (by simp [field])⟩
  | traceInstructions flag =>
    exact ⟨hknown, hregisters (by simp [field]), .value List.mem_cons_self rfl, hlimits (by simp [field])⟩
  | limit length =>
    have htable : Limits.StandsFor (.table .dotted [("max_sequence_len", .integer length)])
        ⟨some length⟩ :=
      .table (by simp) (.value List.mem_cons_self (hbounds hrange))
    exact ⟨hknown, hregisters (by simp [field]), htrace (by simp [field]), .value List.mem_cons_self htable⟩
  | limitItem length =>
    exact ⟨hknown, hregisters (by simp [field]), htrace (by simp [field]),
      .value List.mem_cons_self (.firstItem (hbounds hrange))⟩

/-- The fields of some settings describe the default with each of them in its place. -/
theorem describes_document (hrange : ∀ x ∈ settings, x.InRange) :
    Describes (settings.map field) (settings.foldr put default) := by
  induction settings with
  | nil => exact describes_nil
  | cons x settings ih =>
    obtain ⟨hx, hrest⟩ := List.forall_mem_cons.mp hrange
    exact describes_cons (ih hrest) hx

/-- What a document of settings is read as: the default with each given value in its place. -/
theorem ofToml_document (h : (settings.map key).Nodup) (hrange : ∀ x ∈ settings, x.InRange) :
    ofToml (document settings) =
      if (settings.foldr put default).registers = 0 then .error .noRegisters
      else .ok (settings.foldr put default) :=
  ofDocument_of_describes Toml.isReader_parse? (parse?_document h) (describes_document hrange)

end Setting

/-- Settings are read from a text exactly if it is valid, its table describes them and they have a
register. No register is an error of its own where the table describes settings, and every other text is
rejected. The order of fields makes no difference, and each given value is in its place. -/
theorem ofDocument_reads_schema {Valid : String → Prop} {parse? : String → Option Fields}
    (h : Toml.IsReader Valid parse?) :
    (∀ text config, ofDocument parse? text = .ok config ↔
      Valid text ∧ 1 ≤ config.registers ∧ ∃ fields, parse? text = some fields ∧ Describes fields config) ∧
    (∀ text, ofDocument parse? text = .error .noRegisters ↔
      Valid text ∧ ∃ fields config, parse? text = some fields ∧ Describes fields config ∧
        ("registers", .integer 0) ∈ fields) ∧
    (∀ text, ofDocument parse? text = .error .invalidDocument ↔
      ¬ Valid text ∨ ∃ fields, parse? text = some fields ∧ ∀ config, ¬ Describes fields config) ∧
    (∀ text text' fields fields', parse? text = some fields → parse? text' = some fields' →
      fields.Perm fields' → ofDocument parse? text = ofDocument parse? text') ∧
    ∀ text (settings : List Setting), parse? text = some (settings.map Setting.field) →
      (∀ x ∈ settings, x.InRange) →
      ofDocument parse? text =
        if (settings.foldr Setting.put default).registers = 0 then .error .noRegisters
        else .ok (settings.foldr Setting.put default) := by
  refine ⟨fun text config => ofDocument_eq_ok_iff h, fun text => ofDocument_eq_noRegisters_iff h,
    fun text => ofDocument_eq_invalidDocument_iff h, ?_, ?_⟩
  · intro text text' fields fields' hparse hparse' hperm
    exact ofDocument_eq_of_perm h hparse hparse' hperm
  · intro text settings hparse hrange
    exact ofDocument_of_describes h hparse (Setting.describes_document hrange)

/-- Settings in two orders with the largest length of all; a document that asks for no registers; and one that
asks for a larger length too, which is what is reported. -/
theorem ofDocument_reads_schema_unordered :
    Toml.IsReader (fun text => (Toml.parse? text).isSome) Toml.parse? ∧
    (let settings : List Setting := [.limit Size.max, .traceInstructions true, .registers 4]
    Setting.document settings =
        "limits.max_sequence_len = 18446744073709551615\ntrace_instructions = true\nregisters = 4" ∧
      ofToml (Setting.document settings) = .ok ⟨4, true, ⟨some Size.max⟩⟩ ∧
      ofToml (Setting.document settings) = ofToml (Setting.document settings.reverse)) ∧
    ofToml "registers = 0" = .error .noRegisters ∧
    ofToml "registers = 0\nlimits.max_sequence_len = 18446744073709551616" = .error .invalidDocument := by
  obtain ⟨-, hnone, hinvalid, hordered, hgiven⟩ := ofDocument_reads_schema Toml.isReader_parse?
  refine ⟨Toml.isReader_parse?, ?_, ?_, ?_⟩
  · intro settings
    have hparse : Toml.parse? (Setting.document settings) = some (settings.map Setting.field) :=
      Setting.parse?_document (by decide)
    have hreverse : Toml.parse? (Setting.document settings.reverse) =
        some (settings.reverse.map Setting.field) := Setting.parse?_document (by decide)
    have hrange : ∀ x ∈ settings, x.InRange := by
      have hfour : 4 ≤ Size.max := by decide
      simp [settings, Setting.InRange, hfour]
    have hperm := (List.reverse_perm settings).symm.map Setting.field
    exact ⟨by decide, hgiven _ settings hparse hrange, hordered _ _ _ _ hparse hreverse hperm⟩
  · have htext : Setting.document [.registers 0] = "registers = 0" := by decide
    have hparse : Toml.parse? (Setting.document [.registers 0]) = some [("registers", .integer 0)] :=
      Setting.parse?_document (by decide)
    have hdescribes : Describes [("registers", .integer 0)] { default with registers := 0 } :=
      Setting.describes_cons (x := .registers 0) Setting.describes_nil (Nat.zero_le _)
    rw [← htext]
    have hvalid : (Toml.parse? (Setting.document [.registers 0])).isSome := by
      rw [hparse]
      rfl
    exact (hnone _).mpr ⟨hvalid, _, _, hparse, hdescribes, List.mem_singleton.mpr rfl⟩
  · have htext : Setting.document [.registers 0, .limit (Size.max + 1)] =
        "registers = 0\nlimits.max_sequence_len = 18446744073709551616" := by decide
    have hparse : Toml.parse? (Setting.document [.registers 0, .limit (Size.max + 1)]) =
        some [("registers", .integer 0),
          ("limits", .table .dotted [("max_sequence_len", .integer (Size.max + 1))])] :=
      Setting.parse?_document (by decide)
    rw [← htext]
    refine (hinvalid _).mpr (.inr ⟨_, hparse, fun config hdescribes => ?_⟩)
    have hread := (ofFields?_eq_some_iff (Toml.distinct_of_parse hparse)).mpr hdescribes
    cases hread

end SequenceMachine.Config
