import SequenceMachine.Proofs.Toml.Parser
import SequenceMachine.Toml.Document
import Mathlib.Data.List.Basic
import Mathlib.Tactic.IntervalCases

/-!
Documents that are written plainly, one entry on each line, are read back. An entry is a dotted key of
parts that need no quotes, an equals sign between two spaces, and the text of a value. If the keys begin
differently the entries become the fields of the table in their order (`parse?_document`).
-/

namespace SequenceMachine.Toml

open SequenceMachine.Toml.Parser

section Numeral
variable {cs : List Char}

theorem digitValue_of_isDigit {c : Char} (h : c.isDigit) : digitValue c = c.toNat - '0'.toNat :=
  if_pos h

theorem isDigitIn_ten {c : Char} (h : c.isDigit) : isDigitIn 10 c := by
  have hrange : '0'.toNat ≤ c.toNat ∧ c.toNat ≤ '9'.toNat := by
    simpa [Char.isDigit, UInt32.le_iff_toNat_le] using h
  have hdecimal : '9'.toNat - '0'.toNat < 10 := by decide
  rw [isDigitIn, digitValue_of_isDigit h, decide_eq_true_eq]
  omega

theorem ungroup_of_digits (hne : cs ≠ []) (h : ∀ c ∈ cs, c.isDigit) : ungroup 10 cs = some cs := by
  induction cs with
  | nil => exact absurd rfl hne
  | cons c cs ih =>
    have hc := isDigitIn_ten (h c List.mem_cons_self)
    cases cs with
    | nil => rw [ungroup, if_pos hc]
    | cons d cs =>
      have hd := h d (List.mem_cons_of_mem _ List.mem_cons_self)
      have hrest := ih (List.cons_ne_nil d cs) fun c hc => h c (List.mem_cons_of_mem _ hc)
      have hgroup : d ≠ '_' := by
        rintro rfl
        cases hd
      rw [ungroup, if_pos hc, hrest]
      · rfl
      · exact fun hnil => List.cons_ne_nil d cs hnil
      · exact fun rest hunderscore => hgroup (List.cons.inj hunderscore).1

/-- A number does not begin with a zero, unless it is zero. -/
theorem head?_toDigits {n : Nat} (h : n ≠ 0) : (Nat.toDigits 10 n).head? ≠ some '0' := by
  induction n using Nat.strongRecOn with
  | ind n ih =>
    rw [Nat.toDigits_eq_if (by decide)]
    split
    · interval_cases n <;> simp_all [Nat.digitChar]
    · rw [List.head?_append_of_ne_nil _ Nat.toDigits_ne_nil]
      exact ih (n / 10) (by omega) (by omega)

theorem isDigit_toDigits (n : Nat) : ∀ c ∈ Nat.toDigits 10 n, c.isDigit := fun _ hc =>
  Nat.isDigit_of_mem_toDigits (by decide) (by decide) hc

/-- The decimal digits of a number stand for it. -/
theorem numberOf_toDigits (n : Nat) : numberOf 10 (Nat.toDigits 10 n) = n := by
  have hfold : (Nat.toDigits 10 n).foldl (fun m c => m * 10 + digitValue c) 0 =
      (Nat.toDigits 10 n).foldl (fun m c => 10 * m + (c.toNat - '0'.toNat)) 0 := by
    refine List.foldl_ext _ _ _ fun m c hc => ?_
    rw [digitValue_of_isDigit (isDigit_toDigits n c hc), Nat.mul_comm]
  calc numberOf 10 (Nat.toDigits 10 n)
      = (Nat.toDigits 10 n).foldl (fun m c => 10 * m + (c.toNat - '0'.toNat)) 0 := hfold
    _ = Nat.ofDigitChars 10 (Nat.toDigits 10 n) 0 := (Nat.ofDigitChars_eq_foldl ..).symm
    _ = n := Nat.ofDigitChars_toDigits (by decide) (by decide)

theorem decimal?_toDigits (n : Nat) : decimal? (Nat.toDigits 10 n) = some n := by
  have hzero : ¬ ((Nat.toDigits 10 n).head? = some '0' ∧ Nat.toDigits 10 n ≠ ['0']) := by
    rintro ⟨hhead, hne⟩
    by_cases h : n = 0
    · subst h
      exact hne rfl
    · exact head?_toDigits h hhead
  rw [decimal?, if_neg hzero, numeral?, ungroup_of_digits Nat.toDigits_ne_nil (isDigit_toDigits n),
    Option.map_some, numberOf_toDigits]

theorem signed_of_digits (h : ∀ c ∈ cs, c.isDigit) : signed cs = (false, cs) := by
  unfold signed
  split
  · cases h '-' List.mem_cons_self
  · cases h '+' List.mem_cons_self
  · rfl

theorem integer?_of_digits (h : ∀ c ∈ cs, c.isDigit) : integer? cs = (decimal? cs).map Int.ofNat := by
  unfold integer?
  split
  · cases h 'x' (List.mem_cons_of_mem _ List.mem_cons_self)
  · cases h 'o' (List.mem_cons_of_mem _ List.mem_cons_self)
  · cases h 'b' (List.mem_cons_of_mem _ List.mem_cons_self)
  · rw [signed_of_digits h]
    rfl

/-- The digits of a number are an integer. -/
theorem scalar?_toDigits (n : Nat) : scalar? (Nat.toDigits 10 n) = some (.integer n) := by
  have hdigits := isDigit_toDigits n
  have htrue : Nat.toDigits 10 n ≠ ['t', 'r', 'u', 'e'] := by
    intro h
    cases hdigits 't' (h ▸ List.mem_cons_self)
  have hfalse : Nat.toDigits 10 n ≠ ['f', 'a', 'l', 's', 'e'] := by
    intro h
    cases hdigits 'f' (h ▸ List.mem_cons_self)
  rw [scalar?, if_neg htrue, if_neg hfalse, integer?_of_digits hdigits, decimal?_toDigits]
  rfl

end Numeral

section Blank
variable {s : List Char}

theorem run_blank_of_ends (h : Ends isBlank s) : blank.run s = some ((), s) :=
  run_bind_of_some (run_takeWhile_of_ends h)

theorem run_blank_space (h : Ends isBlank s) : blank.run (' ' :: s) = some ((), s) := by
  have hspace : ∀ c ∈ [' '], isBlank c := List.forall_mem_singleton.mpr rfl
  exact run_bind_of_some (run_takeWhile_append hspace h)

end Blank

section Key
variable {part first : String} {rest : List String} {s : List Char}

def IsBarePart (part : String) : Prop := part.toList ≠ [] ∧ ∀ c ∈ part.toList, isBare c

instance (part : String) : Decidable (IsBarePart part) :=
  decidable_of_iff (part.toList ≠ [] ∧ part.toList.all isBare) (and_congr_right' List.all_eq_true)

theorem IsBarePart.ends_eq (h : IsBarePart part) {c : Char} (hc : isBare c = false) (s : List Char) :
    Ends (· = c) (part.toList ++ s) := by
  refine ends_append h.1 h.2 (fun d hd => decide_eq_false ?_) s
  rintro rfl
  exact Bool.false_ne_true (hc.symm.trans hd)

theorem IsBarePart.ends_isBlank (h : IsBarePart part) (s : List Char) :
    Ends isBlank (part.toList ++ s) := by
  refine ends_append h.1 h.2 (fun c hc => ?_) s
  have hspace : c ≠ ' ' := by
    rintro rfl
    cases hc
  have htab : c ≠ '\t' := by
    rintro rfl
    cases hc
  simp [isBlank, hspace, htab]

theorem run_simpleKey (h : IsBarePart part) (hs : Ends isBare s) :
    simpleKey.run (part.toList ++ s) = some (part, s) := by
  have hbasic : basicString.run (part.toList ++ s) = none :=
    run_bind_of_none (run_char_of_ends (h.ends_eq rfl s))
  have hliteral : literalString.run (part.toList ++ s) = none :=
    run_bind_of_none (run_char_of_ends (h.ends_eq rfl s))
  rw [simpleKey, run_orElse_of_none hbasic, run_orElse_of_none hliteral,
    run_bind_of_some (run_takeWhile_append h.2 hs), if_neg (by simpa using h.1), String.ofList_toList]
  rfl

def dotted : List String → List Char
  | [] => []
  | first :: rest => first.toList ++ rest.flatMap fun part => '.' :: part.toList

/-- A dotted key is read up to the equals sign. -/
theorem run_key (hfirst : IsBarePart first) (hrest : ∀ part ∈ rest, IsBarePart part)
    (hlength : rest.length < maxKeyParts) (s : List Char) :
    key.run (dotted (first :: rest) ++ ' ' :: '=' :: s) = some (first :: rest, ' ' :: '=' :: s) := by
  have hends : Ends isBare (' ' :: '=' :: s) := ends_cons rfl _
  have hgoes : Ends isBare ((rest.flatMap fun part => '.' :: part.toList) ++ ' ' :: '=' :: s) :=
    goes_flatMap_append (fun _ _ _ => ends_cons rfl _) hends
  have hstop : StateT.run (do blank; char '.'; blank; simpleKey) (' ' :: '=' :: s) = none := by
    rw [run_bind_of_some (run_blank_space (ends_cons rfl _))]
    exact run_bind_of_none (run_char_of_ends (ends_cons rfl _))
  have hparts : (many (do blank; char '.'; blank; simpleKey)).run
      ((rest.flatMap fun part => '.' :: part.toList) ++ ' ' :: '=' :: s) =
        some (rest.map id, ' ' :: '=' :: s) := by
    refine run_many (Ends isBare) _ id (fun part hpart s' hs' => ?_) (fun _ _ _ => ends_cons rfl _)
      (fun _ _ => List.cons_ne_nil _ _) hends hstop
    have hbare := hrest part hpart
    rw [List.cons_append, run_bind_of_some (run_blank_of_ends (ends_cons rfl _)),
      run_bind_of_some (run_char '.' _), run_bind_of_some (run_blank_of_ends (hbare.ends_isBlank _))]
    exact run_simpleKey hbare hs'
  rw [key, dotted, List.append_assoc, run_bind_of_some (run_simpleKey hfirst hgoes),
    run_bind_of_some hparts, List.map_id, if_pos hlength]
  rfl

end Key

section Value
variable {cs s : List Char} {v : Value}

def IsWord (cs : List Char) : Prop := cs ≠ [] ∧ ∀ c ∈ cs, c.isAlphanum

instance (cs : List Char) : Decidable (IsWord cs) :=
  decidable_of_iff (cs ≠ [] ∧ cs.all Char.isAlphanum) (and_congr_right' List.all_eq_true)

theorem isWord_toDigits (n : Nat) : IsWord (Nat.toDigits 10 n) := by
  refine ⟨Nat.toDigits_ne_nil, fun c hc => ?_⟩
  rw [Char.isAlphanum, isDigit_toDigits n c hc, Bool.or_true]

theorem notMem_of_isAlphanum {c : Char} {ds : List Char} (h : c.isAlphanum)
    (hds : ds.all fun d => !d.isAlphanum) : c ∉ ds := by
  intro hmem
  have hnot := List.all_eq_true.mp hds c hmem
  rw [h] at hnot
  cases hnot

theorem isWordPart_of_isAlphanum {c : Char} (h : c.isAlphanum) : isWordPart c :=
  decide_eq_true (notMem_of_isAlphanum h (by decide))

/-- A word does not begin like a string, an array or a table in braces. -/
theorem IsWord.peek (h : IsWord cs) (s : List Char) :
    ∃ c, c.isAlphanum ∧ peek.run (cs ++ s) = some (some c, cs ++ s) := by
  obtain ⟨hne, halnum⟩ := h
  cases cs with
  | nil => exact absurd rfl hne
  | cons c cs => exact ⟨c, halnum c List.mem_cons_self, rfl⟩

/-- A word is read as a whole, up to what neither belongs to it nor begins a further one. -/
theorem run_unquotedText (hword : ∀ c ∈ cs, isWordPart c) (hblank : Ends isBlank s)
    (hs : Ends isWordPart s) : unquotedText.run (cs ++ s) = some (cs, s) := by
  have hstart : Ends isWordStart s := fun c hc => by simp [isWordStart, hs c hc]
  have hstop : StateT.run (do
      let gap ← takeWhile isBlank
      let c ← satisfy isWordStart
      let word ← takeWhile isWordPart
      return gap ++ c :: word) s = none := by
    rw [run_bind_of_some (run_takeWhile_of_ends hblank)]
    exact run_bind_of_none (run_satisfy_of_ends hstart)
  rw [unquotedText, run_bind_of_some (run_takeWhile_append hword hs),
    run_bind_of_some (run_many_of_none hstop), List.flatten_nil, List.append_nil]
  rfl

theorem run_flatValue (hword : IsWord cs) (hscalar : scalar? cs = some v) (hblank : Ends isBlank s)
    (hs : Ends isWordPart s) : flatValue.run (cs ++ s) = some (v, s) := by
  have hparts : ∀ c ∈ cs, isWordPart c := fun c hc => isWordPart_of_isAlphanum (hword.2 c hc)
  obtain ⟨c, hc, hpeek⟩ := hword.peek s
  rw [flatValue, run_bind_of_some hpeek]
  split
  · next heq =>
    obtain rfl := Option.some.inj heq
    cases hc
  · next heq =>
    obtain rfl := Option.some.inj heq
    cases hc
  · rw [unquoted, run_bind_of_some (run_unquotedText hparts hblank hs), hscalar]
    rfl

theorem run_value_of_scalar (hword : IsWord cs) (hscalar : scalar? cs = some v)
    (hblank : Ends isBlank s) (hs : Ends isWordPart s) (depth : Nat) :
    (value depth).run (cs ++ s) = some (v, s) := by
  have hflat := run_flatValue hword hscalar hblank hs
  cases depth with
  | zero => exact hflat
  | succ depth =>
    obtain ⟨c, hc, hpeek⟩ := hword.peek s
    rw [value, run_bind_of_some hpeek]
    split
    · next heq =>
      obtain rfl := Option.some.inj heq
      cases hc
    · next heq =>
      obtain rfl := Option.some.inj heq
      cases hc
    · exact hflat

def isGap (c : Char) : Bool := c ∈ [' ', '\t', '\n', '\r', '#']

theorem run_blankLines (h : Ends isGap s) : blankLines.run s = some ((), s) := by
  have hends {c : Char} (hc : isGap c) : Ends (· = c) s := fun d hd => decide_eq_false (by
    rintro rfl
    exact Bool.false_ne_true ((h d hd).symm.trans hc))
  have hblank : Ends isBlank s := fun c hc => by
    have hgap := h c hc
    simp only [isGap, List.mem_cons, decide_eq_false_iff_not, not_or] at hgap
    simp [isBlank, hgap]
  have hcomment : comment.run s = none := run_bind_of_none (run_char_of_ends (hends rfl))
  have hnewline : newline.run s = none := by
    rw [newline, run_orElse_of_none (run_char_of_ends (hends rfl))]
    exact run_bind_of_none (run_char_of_ends (hends rfl))
  have hstop : StateT.run (do comment <|> pure (); newline; blank) s = none := by
    rw [run_bind_of_some (run_orElse_of_none hcomment)]
    exact run_bind_of_none hnewline
  rw [blankLines, run_bind_of_some (run_blank_of_ends hblank), run_bind_of_some (run_many_of_none hstop)]
  rfl

/-- An array of one word. -/
theorem run_value_of_item (hword : IsWord cs) (hscalar : scalar? cs = some v) (s : List Char)
    (depth : Nat) : (value (depth + 1)).run ('[' :: (cs ++ ']' :: s)) = some (.array [v], s) := by
  have hitem : (value depth).run (cs ++ ']' :: s) = some (v, ']' :: s) :=
    run_value_of_scalar hword hscalar (ends_cons rfl _) (ends_cons rfl _) depth
  have hbefore : blankLines.run (cs ++ ']' :: s) = some ((), cs ++ ']' :: s) :=
    run_blankLines (ends_append hword.1 hword.2
      (fun c hc => decide_eq_false (notMem_of_isAlphanum hc (by decide))) _)
  have hafter : blankLines.run (']' :: s) = some ((), ']' :: s) := run_blankLines (ends_cons rfl _)
  have hcomma {β : Type} (f : Unit → Parser β) : (char ',' >>= f).run (']' :: s) = none :=
    run_bind_of_none (run_char_of_ends (ends_cons rfl _))
  have hitems : (commaSeparated (value depth) blankLines).run (cs ++ ']' :: s) =
      some ([v], ']' :: s) := by
    refine run_orElse_of_some ?_
    rw [run_bind_of_some hitem, run_bind_of_some hafter, run_bind_of_some (run_many_of_none (hcomma _)),
      run_bind_of_some (run_orElse_of_none (hcomma _))]
    rfl
  have hpeek : peek.run ('[' :: (cs ++ ']' :: s)) = some (some '[', '[' :: (cs ++ ']' :: s)) := rfl
  rw [value, run_bind_of_some hpeek]
  change (array (value depth)).run _ = _
  rw [array, run_bind_of_some (run_char '[' _), run_bind_of_some hbefore, run_bind_of_some hitems,
    run_bind_of_some (run_char ']' s)]
  rfl

/-- The text of a value that is written plainly: a word, or a word between brackets. -/
inductive Writes : List Char → Value → Prop
  | word {cs : List Char} {v : Value} (hword : IsWord cs) (hscalar : scalar? cs = some v) : Writes cs v
  | item {cs : List Char} {v : Value} (hword : IsWord cs) (hscalar : scalar? cs = some v) :
    Writes ('[' :: (cs ++ [']'])) (.array [v])

theorem writes_toDigits (n : Nat) : Writes (Nat.toDigits 10 n) (.integer n) :=
  .word (isWord_toDigits n) (scalar?_toDigits n)

theorem writes_true : Writes ['t', 'r', 'u', 'e'] (.boolean true) := .word (by decide) rfl

theorem writes_false : Writes ['f', 'a', 'l', 's', 'e'] (.boolean false) := .word (by decide) rfl

theorem ends_of_newline {holds : Char → Bool} (h : Ends (· ≠ '\n') s) (hnewline : holds '\n' = false) :
    Ends holds s := by
  intro c hc
  obtain rfl : c = '\n' := by simpa using h c hc
  exact hnewline

theorem Writes.ends_isBlank (h : Writes cs v) (s : List Char) : Ends isBlank (cs ++ s) := by
  cases h with
  | word hword hscalar =>
    refine ends_append hword.1 hword.2 (fun c hc => ?_) s
    have hnone : c ∉ [' ', '\t'] := notMem_of_isAlphanum hc (by decide)
    simpa [isBlank] using hnone
  | item hword hscalar => exact ends_cons rfl _

/-- A value that is written plainly is read back at the end of its line. -/
theorem Writes.run (h : Writes cs v) (hs : Ends (· ≠ '\n') s) :
    (value maxDepth).run (cs ++ s) = some (v, s) := by
  cases h with
  | word hword hscalar =>
    exact run_value_of_scalar hword hscalar (ends_of_newline hs rfl) (ends_of_newline hs rfl) _
  | item hword hscalar =>
    rw [List.cons_append, List.append_assoc]
    exact run_value_of_item hword hscalar s _

end Value

def nest (v : Value) : List String → Value
  | [] => v
  | key :: path => .table .dotted [(key, nest v path)]

structure Entry where
  first : String
  further : List String
  text : List Char
  value : Value

namespace Entry

def chars (e : Entry) : List Char := dotted (e.first :: e.further) ++ ' ' :: '=' :: ' ' :: e.text

def line (e : Entry) : Line := .entry (e.first :: e.further) e.value

def field (e : Entry) : String × Value := (e.first, nest e.value e.further)

structure Plain (e : Entry) : Prop where
  first : IsBarePart e.first
  further : ∀ part ∈ e.further, IsBarePart part
  short : e.further.length < maxKeyParts
  written : Writes e.text e.value

end Entry

section Line
variable {e : Entry} {es : List Entry} {s : List Char}

/-- The line of an entry is read as that entry. -/
theorem run_line (h : e.Plain) (hs : Ends (· ≠ '\n') s) :
    line.run (e.chars ++ s) = some (e.line, s) := by
  have hfront : e.chars ++ s = e.first.toList ++
      ((e.further.flatMap fun part => '.' :: part.toList) ++ ' ' :: '=' :: ' ' :: (e.text ++ s)) := by
    simp [Entry.chars, dotted]
  have hblank : blank.run (e.chars ++ s) = some ((), e.chars ++ s) := by
    rw [hfront]
    exact run_blank_of_ends (h.first.ends_isBlank _)
  -- A key begins with no bracket, so the line is no header.
  have hbracket : (char '[').run (e.chars ++ s) = none := by
    rw [hfront]
    exact run_char_of_ends (h.first.ends_eq rfl _)
  have harray : arrayHeader.run (e.chars ++ s) = none :=
    run_bind_of_none (run_bind_of_none hbracket)
  have hheader : header.run (e.chars ++ s) = none := run_bind_of_none hbracket
  have hentry : (keyValue blank (value maxDepth)).run (e.chars ++ s) =
      some ((e.first :: e.further, e.value), s) := by
    have hkey := run_key h.first h.further h.short (' ' :: (e.text ++ s))
    rw [keyValue, Entry.chars, List.append_assoc, List.cons_append, List.cons_append, List.cons_append,
      run_bind_of_some hkey, run_bind_of_some (run_blank_space (ends_cons rfl _)),
      run_bind_of_some (run_char '=' _), run_bind_of_some (run_blank_space (h.written.ends_isBlank s)),
      run_bind_of_some (h.written.run hs)]
    rfl
  have hsaid {p : Parser Line} (hp : p.run (e.chars ++ s) = some (e.line, s)) :
      (arrayHeader <|> header <|> p <|> pure .blank).run (e.chars ++ s) = some (e.line, s) := by
    rw [run_orElse_of_none harray, run_orElse_of_none hheader, run_orElse_of_some hp]
  have hcomment : comment.run s = none :=
    run_bind_of_none (run_char_of_ends (ends_of_newline hs rfl))
  rw [line, run_bind_of_some hblank, run_bind_of_some (hsaid ?_),
    run_bind_of_some (run_blank_of_ends (ends_of_newline hs rfl)),
    run_bind_of_some (run_orElse_of_none hcomment)]
  · rfl
  · rw [run_bind_of_some hentry]
    rfl

/-- Lines in a row, each but the first behind a line end. -/
theorem run_lines (h : e.Plain) (hes : ∀ e ∈ es, e.Plain) :
    lines.run (e.chars ++ es.flatMap fun e => '\n' :: e.chars) =
      some (e.line :: es.map Entry.line, []) := by
  have hmark : (char '\ufeff').run (e.chars ++ es.flatMap fun e => '\n' :: e.chars) = none := by
    rw [Entry.chars, dotted, List.append_assoc, List.append_assoc]
    exact run_char_of_ends (h.first.ends_eq (by decide) _)
  have hgoes : Ends (· ≠ '\n') ((es.flatMap fun e => '\n' :: e.chars) ++ []) :=
    goes_flatMap_append (fun _ _ _ => ends_cons rfl _) ends_nil
  have hrest : (many (do newline; line)).run ((es.flatMap fun e => '\n' :: e.chars) ++ []) =
      some (es.map Entry.line, []) := by
    refine run_many (Ends (· ≠ '\n')) _ Entry.line (fun e he s hs => ?_) (fun _ _ _ => ends_cons rfl _)
      (fun _ _ => List.cons_ne_nil _ _) ends_nil rfl
    have hnewline : newline.run ('\n' :: (e.chars ++ s)) = some ((), e.chars ++ s) :=
      run_orElse_of_some (run_char '\n' _)
    rw [List.cons_append, run_bind_of_some hnewline]
    exact run_line (hes e he) hs
  rw [List.append_nil] at hgoes hrest
  rw [lines, run_bind_of_some (run_orElse_of_none hmark), run_bind_of_some (run_line h hgoes),
    run_bind_of_some hrest]
  rfl

end Line

section Table
variable {fields : Fields} {es : List Entry}

theorem alter_of_notMem {f : Option Value → Option Value} {key : String}
    (h : key ∉ fields.map Prod.fst) :
    fields.alter f key = (f none).map fun v => fields ++ [(key, v)] := by
  induction fields with
  | nil => rfl
  | cons field fields ih =>
    obtain ⟨k, v⟩ := field
    obtain ⟨hne, hrest⟩ := not_or.mp (List.mem_cons.not.mp h)
    rw [Fields.alter, if_neg fun heq => hne heq.symm, ih hrest]
    cases f none <;> rfl

/-- An entry whose key begins like no field adds its field behind the others. -/
theorem insert_of_notMem {v : Value} {key : String} {path : List String}
    (h : key ∉ fields.map Prod.fst) :
    fields.insert v (key :: path) = some (fields ++ [(key, nest v path)]) := by
  induction path generalizing fields key with
  | nil => exact alter_of_notMem h
  | cons next path ih =>
    have hinner : Fields.insert v (next :: path) [] = some [(next, nest v path)] :=
      ih List.not_mem_nil
    rw [Fields.insert, alter_of_notMem h, hinner]
    · rfl
    · exact List.cons_ne_nil next path

/-- Entries with different first parts are added as fields, one after the other. -/
theorem foldlM_addLine (hfirst : (fields.map Prod.fst ++ es.map Entry.first).Nodup) :
    (es.map Entry.line).foldlM addLine (fields, []) = some (fields ++ es.map Entry.field, []) := by
  induction es generalizing fields with
  | nil => simp
  | cons e es ih =>
    have hnew : e.first ∉ fields.map Prod.fst := fun hmem =>
      (List.nodup_append.mp hfirst).2.2 e.first hmem e.first List.mem_cons_self rfl
    have hadd : addLine (fields, []) e.line = some (fields ++ [e.field], []) := by
      have hinsert : fields.insert e.value (e.first :: e.further) = some (fields ++ [e.field]) :=
        insert_of_notMem hnew
      simp only [Entry.line, addLine, Fields.within, hinsert]
      rfl
    have hrest : (es.map Entry.line).foldlM addLine (fields ++ [e.field], []) =
        some (fields ++ [e.field] ++ es.map Entry.field, []) :=
      ih (by simpa [Entry.field] using hfirst)
    rw [List.map_cons, List.foldlM_cons, hadd]
    change (es.map Entry.line).foldlM addLine (fields ++ [e.field], []) = _
    rw [hrest, List.map_cons, List.append_assoc, List.singleton_append]

end Table

theorem intercalate_cons_eq_append {α : Type} (separator first : List α) (rest : List (List α)) :
    separator.intercalate (first :: rest) = first ++ rest.flatMap (separator ++ ·) := by
  induction rest generalizing first with
  | nil => simp
  | cons next rest ih =>
    rw [List.intercalate_cons_cons, ih, List.flatMap_cons, List.append_assoc]
    simp

/-- A document of plain entries whose keys begin differently is read as the table of their fields. -/
theorem parse?_document {es : List Entry} {text : String} (hplain : ∀ e ∈ es, e.Plain)
    (hfirst : (es.map Entry.first).Nodup)
    (htext : text.toList = ['\n'].intercalate (es.map Entry.chars)) :
    parse? text = some (es.map Entry.field) := by
  have hparse (found : List Line) (h : lines.run text.toList = some (found, []))
      (hmade : found.foldlM addLine ([], []) = some (es.map Entry.field, [])) :
      parse? text = some (es.map Entry.field) := by
    rw [parse?, h]
    change (found.foldlM addLine ([], []) >>= fun made => some made.1) = _
    rw [hmade]
    rfl
  cases es with
  | nil =>
    exact hparse [.blank] (htext ▸ rfl) rfl
  | cons e es =>
    have hchars : text.toList = e.chars ++ es.flatMap fun e => '\n' :: e.chars := by
      rw [htext, List.map_cons, intercalate_cons_eq_append, List.flatMap_map]
      rfl
    have hlines := run_lines (hplain e List.mem_cons_self)
      fun e he => hplain e (List.mem_cons_of_mem _ he)
    have hmade : ((e :: es).map Entry.line).foldlM addLine ([], []) =
        some ([] ++ (e :: es).map Entry.field, []) := foldlM_addLine hfirst
    exact hparse _ (hchars ▸ hlines) hmade

end SequenceMachine.Toml
