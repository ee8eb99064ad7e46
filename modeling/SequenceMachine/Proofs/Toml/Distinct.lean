import SequenceMachine.Proofs.Toml.Fields
import SequenceMachine.Proofs.Toml.Parser
import SequenceMachine.Toml.Document

namespace SequenceMachine.Toml

/-- An array takes a further item, or another one in place of its last. -/
theorem Value.distinct_array_concat {items : List Value} {v : Value} (h : ∀ v ∈ items, v.Distinct)
    (hv : v.Distinct) : (Value.array (items ++ [v])).Distinct := by
  refine .array fun w hmem => ?_
  rcases List.mem_append.mp hmem with hbefore | hlast
  · exact h w hbefore
  · obtain rfl := List.mem_singleton.mp hlast
    exact hv

namespace Fields

variable {fields fields' : Fields} {key : String} {v : Value} {path : List String}

/-- A field that is altered keeps its place, and a new one comes last. -/
theorem keys_of_alter {f : Option Value → Option Value} (h : fields.alter f key = some fields') :
    fields'.map Prod.fst =
      if key ∈ fields.map Prod.fst then fields.map Prod.fst else fields.map Prod.fst ++ [key] := by
  induction fields generalizing fields' with
  | nil =>
    obtain ⟨v, -, rfl⟩ := Option.map_eq_some_iff.mp h
    rfl
  | cons field rest ih =>
    obtain ⟨k, w⟩ := field
    rw [alter] at h
    split at h
    · next heq =>
      subst heq
      obtain ⟨v, -, rfl⟩ := Option.map_eq_some_iff.mp h
      simp
    · next hne =>
      obtain ⟨rest', hrest, rfl⟩ := Option.map_eq_some_iff.mp h
      have hkeys := ih hrest
      have hother : key ≠ k := fun heq => hne heq.symm
      simp only [List.map_cons, List.mem_cons, hother, false_or, hkeys]
      split <;> rfl

/-- A field after an alteration is one of before, or holds the value that was made of the present one. -/
theorem mem_of_mem_alter {f : Option Value → Option Value} (h : fields.alter f key = some fields')
    {field : String × Value} (hmem : field ∈ fields') :
    field ∈ fields ∨ ∃ present, (∀ w, present = some w → (key, w) ∈ fields) ∧
      f present = some field.2 := by
  induction fields generalizing fields' with
  | nil =>
    obtain ⟨v, hv, rfl⟩ := Option.map_eq_some_iff.mp h
    obtain rfl := List.mem_singleton.mp hmem
    exact .inr ⟨none, fun _ hnone => (Option.some_ne_none _ hnone.symm).elim, hv⟩
  | cons first rest ih =>
    obtain ⟨k, w⟩ := first
    rw [alter] at h
    split at h
    · next heq =>
      subst heq
      obtain ⟨v, hv, rfl⟩ := Option.map_eq_some_iff.mp h
      rcases List.mem_cons.mp hmem with rfl | hrest
      · refine .inr ⟨some w, fun x hx => ?_, hv⟩
        obtain rfl := Option.some.inj hx
        exact List.mem_cons_self
      · exact .inl (List.mem_cons_of_mem _ hrest)
    · obtain ⟨rest', hrest, rfl⟩ := Option.map_eq_some_iff.mp h
      rcases List.mem_cons.mp hmem with rfl | hmem'
      · exact .inl List.mem_cons_self
      · rcases ih hrest hmem' with hold | ⟨present, hpresent, hv⟩
        · exact .inl (List.mem_cons_of_mem _ hold)
        · exact .inr ⟨present, fun x hx => List.mem_cons_of_mem _ (hpresent x hx), hv⟩

theorem Distinct.alter {f : Option Value → Option Value} (h : fields.Distinct)
    (hf : ∀ present v, (∀ w, present = some w → w.Distinct) → f present = some v → v.Distinct)
    (he : fields.alter f key = some fields') : fields'.Distinct where
  nodup := by
    rw [keys_of_alter he]
    split
    · exact h.nodup
    · next hnew => exact List.nodup_append_comm.mp (List.nodup_cons.mpr ⟨hnew, h.nodup⟩)
  values := by
    intro field hmem
    rcases mem_of_mem_alter he hmem with hold | ⟨present, hpresent, hv⟩
    · exact h.values field hold
    · exact hf present field.2 (fun w hw => h.values (key, w) (hpresent w hw)) hv

/-- A dotted key is only added where it is not there yet. -/
theorem Distinct.insert (h : fields.Distinct) (hv : v.Distinct)
    (he : fields.insert v path = some fields') : fields'.Distinct := by
  induction path generalizing fields fields' with
  | nil => cases he
  | cons key path ih =>
    cases path with
    | nil =>
      refine h.alter (fun present w _ hw => ?_) he
      cases present with
      | none =>
        obtain rfl := Option.some.inj hw
        exact hv
      | some _ => cases hw
    | cons next path =>
      refine h.alter (fun present w hpresent hw => ?_) he
      cases present with
      | none =>
        obtain ⟨inner, hinner, rfl⟩ := Option.map_eq_some_iff.mp hw
        exact (ih distinct_nil hinner).table .dotted
      | some held =>
        cases held with
        | table origin inner =>
          cases origin with
          | dotted =>
            obtain ⟨inner', hinner, rfl⟩ := Option.map_eq_some_iff.mp hw
            exact (ih (.of_table (hpresent _ rfl)) hinner).table .dotted
          | _ => cases hw
        | _ => cases hw

/-- A change inside of a table that keeps the keys distinct there keeps them so in all. -/
theorem Distinct.within {f : Fields → Option Fields} (h : fields.Distinct)
    (hf : ∀ inner inner' : Fields, inner.Distinct → f inner = some inner' → inner'.Distinct)
    (he : fields.within f path = some fields') : fields'.Distinct := by
  induction path generalizing fields fields' with
  | nil => exact hf fields fields' h he
  | cons key path ih =>
    refine h.alter (fun present w hpresent hw => ?_) he
    cases present with
    | none =>
      obtain ⟨inner, hinner, rfl⟩ := Option.map_eq_some_iff.mp hw
      exact (ih distinct_nil hinner).table .implied
    | some held =>
      have hheld := hpresent held rfl
      cases held with
      | table origin inner =>
        have hinner : (within f path inner).map (.table origin) = some w := by
          cases origin with
          | inline => cases hw
          | _ => exact hw
        obtain ⟨inner', hinner', rfl⟩ := Option.map_eq_some_iff.mp hinner
        exact (ih (.of_table hheld) hinner').table origin
      | array items =>
        dsimp only at hw
        split at hw
        · next inner hlast =>
          obtain ⟨inner', hinner', rfl⟩ := Option.map_eq_some_iff.mp hw
          -- A path enters the last table of an array, and leaves the ones before as they are.
          have hentered := hheld.items _ (List.mem_of_getLast? hlast)
          have hbefore : ∀ v ∈ items.dropLast, v.Distinct := fun v hmem =>
            hheld.items v ((List.dropLast_sublist items).subset hmem)
          exact Value.distinct_array_concat hbefore ((ih (.of_table hentered) hinner').table .header)
        · cases hw
      | _ => cases hw

/-- A table that a header opens is empty, or it is one that was there before. -/
theorem Distinct.openTable (h : fields.Distinct) (he : fields.openTable path = some fields') :
    fields'.Distinct := by
  obtain ⟨key, -, he⟩ := Option.bind_eq_some_iff.mp he
  refine h.within (fun inner inner' hinner he => hinner.alter (fun present w hpresent hw => ?_) he) he
  cases present with
  | none =>
    obtain rfl := Option.some.inj hw
    exact distinct_nil.table .header
  | some held =>
    cases held with
    | table origin inner =>
      cases origin with
      | implied =>
        obtain rfl := Option.some.inj hw
        exact (Distinct.of_table (hpresent _ rfl)).table .header
      | _ => cases hw
    | _ => cases hw

theorem Distinct.openArrayTable (h : fields.Distinct)
    (he : fields.openArrayTable path = some fields') : fields'.Distinct := by
  obtain ⟨key, -, he⟩ := Option.bind_eq_some_iff.mp he
  have hnew : (Value.table .header []).Distinct := distinct_nil.table .header
  refine h.within (fun inner inner' hinner he => hinner.alter (fun present w hpresent hw => ?_) he) he
  cases present with
  | none =>
    obtain rfl := Option.some.inj hw
    exact .array fun v hv => List.mem_singleton.mp hv ▸ hnew
  | some held =>
    cases held with
    | array items =>
      dsimp only at hw
      split at hw
      · obtain rfl := Option.some.inj hw
        exact Value.distinct_array_concat (hpresent _ rfl).items hnew
      · cases hw
    | _ => cases hw

end Fields

section Read

open SequenceMachine.Toml.Parser

theorem isScalar_of_scalar? {cs : List Char} {v : Value} (h : scalar? cs = some v) : v.isScalar := by
  unfold scalar? at h
  repeat' split at h
  all_goals cases h <;> rfl

theorem yields_flatValue : Yields flatValue Value.Distinct := by
  have hstring (p : Parser String) : Yields (do return .string (← p)) Value.Distinct :=
    yields_bind fun _ => yields_pure (.scalar rfl)
  refine yields_bind fun next => ?_
  split
  · exact hstring _
  · exact hstring _
  · exact yields_bind fun _ => yields_lift fun v hv => .scalar (isScalar_of_scalar? hv)

theorem yields_keyValue {p : Parser Value} {P : Value → Prop} (hp : Yields p P) (gap : Parser Unit) :
    Yields (keyValue gap p) fun entry => P entry.2 :=
  yields_bind fun _ => yields_bind fun _ => yields_bind fun _ => yields_bind fun _ =>
    hp.bind fun _ hv => yields_pure hv

theorem yields_array {p : Parser Value} (hp : Yields p Value.Distinct) :
    Yields (array p) Value.Distinct :=
  yields_bind fun _ => yields_bind fun _ => (hp.commaSeparated _).bind fun _ hitems =>
    yields_bind fun _ => yields_pure (.array hitems)

/-- A table in braces is built entry by entry, so it says nothing twice. -/
theorem yields_inlineTable {p : Parser Value} (hp : Yields p Value.Distinct) :
    Yields (inlineTable p) Value.Distinct := by
  refine yields_bind fun _ => yields_bind fun _ => ((yields_keyValue hp _).commaSeparated _).bind
    fun entries hentries => yields_bind fun _ => Yields.bind (P := Fields.Distinct) ?_ fun fields h =>
      yields_pure (h.table .inline)
  exact yields_foldlM (fun entry hmem _ h => yields_lift fun _ he => h.insert (hentries entry hmem) he)
    Fields.distinct_nil

/-- The values of a document, however deep they are nested. -/
theorem yields_value (depth : Nat) : Yields (value depth) Value.Distinct := by
  induction depth with
  | zero => exact yields_flatValue
  | succ depth ih =>
    refine yields_bind fun next => ?_
    split
    · exact yields_array ih
    · exact yields_inlineTable ih
    · exact yields_flatValue

def Line.Distinct : Line → Prop
  | .entry _ v => v.Distinct
  | _ => True

theorem yields_line : Yields line Line.Distinct := by
  have hentry : Yields (keyValue blank (value maxDepth) >>= fun entry => pure (.entry entry.1 entry.2))
      Line.Distinct :=
    (yields_keyValue (yields_value _) _).bind fun entry hv => yields_pure hv
  have hheader : Yields header Line.Distinct :=
    yields_bind fun _ => yields_bind fun _ => yields_bind fun _ => yields_pure trivial
  have harray : Yields arrayHeader Line.Distinct :=
    yields_bind fun _ => yields_bind fun _ => yields_bind fun _ => yields_pure trivial
  have hblank : Yields (pure .blank) Line.Distinct := yields_pure trivial
  exact yields_bind fun _ => (harray.orElse (hheader.orElse (hentry.orElse hblank))).bind
    fun said hsaid => yields_bind fun _ => yields_bind fun _ => yields_pure hsaid

theorem yields_lines : Yields lines fun found => ∀ said ∈ found, said.Distinct := by
  refine yields_bind fun _ => yields_line.bind fun first hfirst => ?_
  have hrest : Yields (do newline; line) Line.Distinct := yields_bind fun _ => yields_line
  refine hrest.many.bind fun rest hrest => yields_bind fun _ => yields_pure ?_
  exact List.forall_mem_cons.mpr ⟨hfirst, hrest⟩

/-- A line of a document adds only what is not there yet. -/
theorem distinct_of_addLine {made made' : Fields × List String} {said : Line}
    (h : made.1.Distinct) (hsaid : said.Distinct) (he : addLine made said = some made') :
    made'.1.Distinct := by
  cases said with
  | blank =>
    obtain rfl := Option.some.inj he
    exact h
  | entry path v =>
    obtain ⟨fields, hfields, he⟩ := Option.bind_eq_some_iff.mp he
    obtain rfl := Option.some.inj he
    exact h.within (fun _ _ hinner hi => hinner.insert hsaid hi) hfields
  | table path =>
    obtain ⟨fields, hfields, he⟩ := Option.bind_eq_some_iff.mp he
    obtain rfl := Option.some.inj he
    exact h.openTable hfields
  | arrayTable path =>
    obtain ⟨fields, hfields, he⟩ := Option.bind_eq_some_iff.mp he
    obtain rfl := Option.some.inj he
    exact h.openArrayTable hfields

/-- What the steps of a fold that succeed keep, the fold keeps. -/
theorem foldlM_keeps {α β : Type} {f : β → α → Option β} {I : β → Prop} {as : List α}
    (hf : ∀ a ∈ as, ∀ b b', I b → f b a = some b' → I b') {b b' : β} (hb : I b)
    (h : as.foldlM f b = some b') : I b' := by
  induction as generalizing b with
  | nil => exact Option.some.inj h ▸ hb
  | cons a as ih =>
    rw [List.foldlM_cons] at h
    obtain ⟨next, hnext, hrest⟩ := Option.bind_eq_some_iff.mp h
    exact ih (fun a ha => hf a (List.mem_cons_of_mem _ ha)) (hf a List.mem_cons_self b next hb hnext)
      hrest

/-- No table of a document has two fields of one key. -/
theorem distinct_of_parse {text : String} {fields : Fields} (h : parse? text = some fields) :
    fields.Distinct := by
  obtain ⟨⟨found, rest⟩, hlines, h⟩ := Option.bind_eq_some_iff.mp h
  obtain ⟨⟨made, current⟩, hmade, h⟩ := Option.bind_eq_some_iff.mp h
  obtain rfl := Option.some.inj h
  have hfound := yields_lines text.toList found rest hlines
  exact foldlM_keeps (I := fun made : Fields × List String => made.1.Distinct)
    (fun said hmem _ _ hmade he => distinct_of_addLine hmade (hfound said hmem) he) Fields.distinct_nil
    hmade

/-- Documents are read by the parser as a reader should: what it makes of a text says nothing twice. -/
theorem isReader_parse? : IsReader (fun text => (parse? text).isSome) parse? where
  accepts _ hvalid := Option.isSome_iff_exists.mp hvalid
  rejects _ hinvalid := Option.not_isSome_iff_eq_none.mp hinvalid
  distinct _ _ hparse := distinct_of_parse hparse

end Read

end SequenceMachine.Toml
