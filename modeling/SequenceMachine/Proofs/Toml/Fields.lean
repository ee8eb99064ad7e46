import SequenceMachine.Toml.Value
import Mathlib.Data.List.Nodup

namespace SequenceMachine.Toml

def Value.isScalar : Value → Bool
  | .array _ => false
  | .table _ _ => false
  | _ => true

inductive Value.Distinct : Value → Prop
  | scalar {v : Value} (h : v.isScalar) : Distinct v
  | array {items : List Value} (h : ∀ v ∈ items, Distinct v) : Distinct (.array items)
  | table {origin : Origin} {fields : Fields} (hkeys : (fields.map Prod.fst).Nodup)
      (h : ∀ field ∈ fields, Distinct field.2) : Distinct (.table origin fields)

theorem Value.Distinct.items {items : List Value} (h : (Value.array items).Distinct) :
    ∀ v ∈ items, v.Distinct := by
  cases h with
  | scalar hscalar => cases hscalar
  | array h => exact h

namespace Fields

structure Distinct (fields : Fields) : Prop where
  nodup : (fields.map Prod.fst).Nodup
  values : ∀ field ∈ fields, field.2.Distinct

theorem distinct_nil : Distinct [] := ⟨List.nodup_nil, fun _ h => absurd h List.not_mem_nil⟩

theorem Distinct.table {fields : Fields} (h : fields.Distinct) (origin : Origin) :
    (Value.table origin fields).Distinct :=
  .table h.nodup h.values

theorem Distinct.of_table {origin : Origin} {fields : Fields}
    (h : (Value.table origin fields).Distinct) : fields.Distinct := by
  cases h with
  | scalar hscalar => cases hscalar
  | table hkeys h => exact ⟨hkeys, h⟩

theorem Distinct.perm {fields fields' : Fields} (h : fields.Distinct) (hperm : fields.Perm fields') :
    fields'.Distinct where
  nodup := (hperm.map Prod.fst).nodup h.nodup
  values field hmem := h.values field (hperm.mem_iff.mpr hmem)

variable {fields : Fields} {key : String} {v : Value}

/-- Under distinct keys a look-up finds the only field of its key. -/
theorem lookup_eq_some_iff (h : (fields.map Prod.fst).Nodup) :
    fields.lookup key = some v ↔ (key, v) ∈ fields := by
  induction fields with
  | nil => simp
  | cons field rest ih =>
    obtain ⟨k, w⟩ := field
    obtain ⟨hnew, hrest⟩ := List.nodup_cons.mp h
    rw [List.mem_cons]
    by_cases heq : key = k
    · -- The first field of the key is the only one.
      subst heq
      have hother : (key, v) ∉ rest := fun hmem => hnew (List.mem_map.mpr ⟨_, hmem, rfl⟩)
      simp [hother, eq_comm]
    · have hnext : List.lookup key ((k, w) :: rest) = List.lookup key rest := by
        simp [List.lookup_cons, beq_false_of_ne heq]
      simp [hnext, ih hrest, heq]

theorem lookup_eq_none_iff : fields.lookup key = none ↔ ∀ v, (key, v) ∉ fields := by
  rw [List.lookup_eq_none_iff]
  constructor
  · intro h v hmem
    simpa using h (key, v) hmem
  · rintro h ⟨k, v⟩ hmem
    have hne : key ≠ k := fun heq => h v (heq ▸ hmem)
    simpa using hne

end Fields

variable {Valid : String → Prop} {parse? : String → Option Fields} {text : String}

/-- What is relied on of a reader of documents: it makes one table of every valid text and rejects all
others, and a text in which a table has a key twice is one of these. -/
structure IsReader (Valid : String → Prop) (parse? : String → Option Fields) : Prop where
  accepts : ∀ text, Valid text → ∃ fields, parse? text = some fields
  rejects : ∀ text, ¬ Valid text → parse? text = none
  distinct : ∀ text fields, parse? text = some fields → fields.Distinct

/-- The valid texts are those of which the reader makes a table. -/
theorem IsReader.valid_iff (h : IsReader Valid parse?) :
    Valid text ↔ ∃ fields, parse? text = some fields := by
  constructor
  · exact h.accepts text
  · rintro ⟨fields, hparse⟩
    by_contra hinvalid
    rw [h.rejects text hinvalid] at hparse
    cases hparse

end SequenceMachine.Toml
