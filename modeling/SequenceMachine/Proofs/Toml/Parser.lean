import SequenceMachine.Toml.Parser
import Mathlib.Algebra.BigOperators.Group.List.Basic

namespace SequenceMachine.Toml.Parser

variable {α β : Type} {p q : Parser α} {f : α → Parser β} {s s' : List Char} {a : α} {P : α → Prop}
  {Q : β → Prop}

section Run

theorem run_bind_of_some (h : p.run s = some (a, s')) : (p >>= f).run s = (f a).run s' := by
  rw [StateT.run_bind, h]
  rfl

theorem run_bind_of_none (h : p.run s = none) : (p >>= f).run s = none := by
  rw [StateT.run_bind, h]
  rfl

theorem run_orElse_of_some (h : p.run s = some (a, s')) : (p <|> q).run s = some (a, s') := by
  rw [StateT.run_orElse, h]
  rfl

theorem run_orElse_of_none (h : p.run s = none) : (p <|> q).run s = q.run s := by
  rw [StateT.run_orElse, h]
  rfl

def Ends (holds : Char → Bool) (s : List Char) : Prop := ∀ c ∈ s.head?, holds c = false

variable {holds : Char → Bool} {c d : Char}

theorem ends_cons (h : holds c = false) (s : List Char) : Ends holds (c :: s) := by
  intro d hd
  obtain rfl := Option.some.inj hd
  exact h

theorem ends_nil : Ends holds [] := fun _ h => (Option.some_ne_none _ h.symm).elim

/-- What holds of no character of some kind does not hold in front of such characters. -/
theorem ends_append {kind : Char → Bool} {cs : List Char} (hne : cs ≠ []) (hkind : ∀ c ∈ cs, kind c)
    (h : ∀ c, kind c → holds c = false) (s : List Char) : Ends holds (cs ++ s) := by
  cases cs with
  | nil => exact absurd rfl hne
  | cons c cs => exact ends_cons (h c (hkind c List.mem_cons_self)) _

theorem takeWhile_of_ends (h : Ends holds s) : s.takeWhile holds = [] := by
  cases s with
  | nil => rfl
  | cons c s => exact List.takeWhile_cons_of_neg (by simp [h c rfl])

theorem dropWhile_of_ends (h : Ends holds s) : s.dropWhile holds = s := by
  cases s with
  | nil => rfl
  | cons c s => exact List.dropWhile_cons_of_neg (by simp [h c rfl])

/-- A longest run ends at the first character that does not belong to it. -/
theorem run_takeWhile_append {cs : List Char} (h : ∀ c ∈ cs, holds c) (hs : Ends holds s) :
    (takeWhile holds).run (cs ++ s) = some (cs, s) := by
  have htaken : (cs ++ s).takeWhile holds = cs := by
    rw [List.takeWhile_append_of_pos h, takeWhile_of_ends hs, List.append_nil]
  have hleft : (cs ++ s).dropWhile holds = s := by
    rw [List.dropWhile_append_of_pos h, dropWhile_of_ends hs]
  change some ((cs ++ s).takeWhile holds, (cs ++ s).dropWhile holds) = some (cs, s)
  rw [htaken, hleft]

theorem run_takeWhile_of_ends (h : Ends holds s) : (takeWhile holds).run s = some ([], s) := by
  have hnone : ∀ c ∈ ([] : List Char), holds c := fun _ hc => absurd hc List.not_mem_nil
  exact run_takeWhile_append hnone h

theorem run_satisfy_of_ends (h : Ends holds s) : (satisfy holds).run s = none := by
  cases s with
  | nil => rfl
  | cons c s =>
    have hrun : (satisfy holds).run (c :: s) =
        StateT.run (if holds c then (do set s; return c) else failure : Parser Char) (c :: s) := rfl
    rw [hrun, h c rfl]
    rfl

theorem run_char (c : Char) (s : List Char) : (char c).run (c :: s) = some ((), s) := by
  simp [char, satisfy]

theorem run_char_of_ends (h : Ends (· = c) s) : (char c).run s = none :=
  run_bind_of_none (run_satisfy_of_ends h)

section Many

variable {γ : Type} {text : γ → List Char} {read : γ → α} {Goes : List Char → Prop}

theorem run_manyUpTo_of_none (h : p.run s = none) (n : Nat) : (manyUpTo p n).run s = some ([], s) := by
  cases n with
  | zero => rfl
  | succ n =>
    rw [manyUpTo, run_orElse_of_none (run_bind_of_none h)]
    rfl

theorem goes_flatMap_append {bs : List γ} (htext : ∀ b ∈ bs, ∀ rest, Goes (text b ++ rest)) (hs : Goes s) :
    Goes (bs.flatMap text ++ s) := by
  cases bs with
  | nil => exact hs
  | cons b bs =>
    rw [List.flatMap_cons, List.append_assoc]
    exact htext b List.mem_cons_self _

/-- Texts that are read one by one, each before a further one or before `s`, are read in a row. -/
theorem run_manyUpTo {bs : List γ}
    (hread : ∀ b ∈ bs, ∀ rest, Goes rest → p.run (text b ++ rest) = some (read b, rest))
    (htext : ∀ b ∈ bs, ∀ rest, Goes (text b ++ rest)) (hs : Goes s) (hstop : p.run s = none) {n : Nat}
    (hn : bs.length ≤ n) :
    (manyUpTo p n).run (bs.flatMap text ++ s) = some (bs.map read, s) := by
  induction bs generalizing n with
  | nil => exact run_manyUpTo_of_none hstop n
  | cons b bs ih =>
    obtain ⟨m, rfl⟩ : ∃ m, n = m + 1 := ⟨n - 1, by rw [List.length_cons] at hn; omega⟩
    have htexts : ∀ b ∈ bs, ∀ rest, Goes (text b ++ rest) := fun b hb =>
      htext b (List.mem_cons_of_mem _ hb)
    have hfirst := hread b List.mem_cons_self _ (goes_flatMap_append htexts hs)
    have hrest := ih (fun b hb => hread b (List.mem_cons_of_mem _ hb)) htexts (Nat.le_of_succ_le_succ hn)
    rw [List.flatMap_cons, List.append_assoc, manyUpTo]
    refine run_orElse_of_some ?_
    rw [run_bind_of_some hfirst, run_bind_of_some hrest]
    rfl

/-- A parser that reads each of some texts reads all of them in a row, and stops at what follows. -/
theorem run_many (Goes : List Char → Prop) (text : γ → List Char) (read : γ → α) {bs : List γ}
    (hread : ∀ b ∈ bs, ∀ rest, Goes rest → p.run (text b ++ rest) = some (read b, rest))
    (htext : ∀ b ∈ bs, ∀ rest, Goes (text b ++ rest)) (hne : ∀ b ∈ bs, text b ≠ []) (hs : Goes s)
    (hstop : p.run s = none) : (many p).run (bs.flatMap text ++ s) = some (bs.map read, s) := by
  -- `many` repeats a parser as often as the text has characters, so no text may be empty.
  have hlength : bs.length ≤ (bs.flatMap text ++ s).length := by
    have hsum := List.length_le_sum_of_one_le (bs.map fun b => (text b).length)
    simp only [List.length_append, List.length_flatMap, List.length_map, List.forall_mem_map] at hsum ⊢
    exact Nat.le_add_right_of_le (hsum fun b hb => List.length_pos_iff.mpr (hne b hb))
  exact run_manyUpTo hread htext hs hstop hlength

theorem run_many_of_none (h : p.run s = none) : (many p).run s = some ([], s) :=
  run_manyUpTo_of_none h s.length

end Many

end Run

section Yields

def Yields (p : Parser α) (P : α → Prop) : Prop :=
  ∀ s a rest, p.run s = some (a, rest) → P a

theorem yields_true (p : Parser α) : Yields p fun _ => True := fun _ _ _ _ => trivial

theorem yields_pure {a : α} (h : P a) : Yields (pure a) P := by
  intro s b rest hb
  obtain ⟨rfl, -⟩ := Prod.mk.inj (Option.some.inj hb)
  exact h

/-- A value from outside the text is recognised as it is. -/
theorem yields_lift {x : Option α} (h : ∀ a, x = some a → P a) : Yields (liftM x) P := by
  intro s a rest hrun
  cases x with
  | none => cases hrun
  | some b =>
    obtain ⟨rfl, -⟩ := Prod.mk.inj (Option.some.inj hrun)
    exact h b rfl

/-- The second parser may count on what the first one yields. -/
theorem Yields.bind {f : α → Parser β} (hp : Yields p P) (hf : ∀ a, P a → Yields (f a) Q) :
    Yields (p >>= f) Q := by
  intro s b rest h
  rw [StateT.run_bind] at h
  obtain ⟨⟨a, s'⟩, ha, hb⟩ := Option.bind_eq_some_iff.mp h
  exact hf a (hp s a s' ha) s' b rest hb

/-- What a parser that goes on recognises is independent of what came before. -/
theorem yields_bind {f : α → Parser β} (hf : ∀ a, Yields (f a) Q) : Yields (p >>= f) Q :=
  (yields_true p).bind fun a _ => hf a

theorem Yields.orElse (hp : Yields p P) (hq : Yields q P) : Yields (p <|> q) P := by
  intro s a rest h
  rw [StateT.run_orElse] at h
  cases hfirst : p.run s with
  | none =>
    rw [hfirst] at h
    exact hq s a rest h
  | some r =>
    rw [hfirst] at h
    obtain rfl := Option.some.inj h
    exact hp s a rest hfirst

theorem Yields.manyUpTo (hp : Yields p P) (n : Nat) : Yields (manyUpTo p n) fun as => ∀ a ∈ as, P a := by
  have hnone : Yields (pure [] : Parser (List α)) fun as => ∀ a ∈ as, P a :=
    yields_pure fun a ha => absurd ha List.not_mem_nil
  induction n with
  | zero => exact hnone
  | succ n ih =>
    refine Yields.orElse (hp.bind fun a ha => ih.bind fun as has => yields_pure ?_) hnone
    exact List.forall_mem_cons.mpr ⟨ha, has⟩

/-- Repetition yields what its turns yield. -/
theorem Yields.many (hp : Yields p P) : Yields (many p) fun as => ∀ a ∈ as, P a :=
  yields_bind fun _ => hp.manyUpTo _

theorem Yields.commaSeparated (hp : Yields p P) (blank : Parser Unit) :
    Yields (commaSeparated p blank) fun as => ∀ a ∈ as, P a := by
  have hnone : Yields (pure [] : Parser (List α)) fun as => ∀ a ∈ as, P a :=
    yields_pure fun a ha => absurd ha List.not_mem_nil
  have hfurther : Yields (do char ','; blank; let a ← p; blank; return a) P :=
    yields_bind fun _ => yields_bind fun _ => hp.bind fun a ha => yields_bind fun _ => yields_pure ha
  refine Yields.orElse (hp.bind fun a ha => yields_bind fun _ => hfurther.many.bind fun as has =>
    yields_bind fun _ => yields_pure ?_) hnone
  exact List.forall_mem_cons.mpr ⟨ha, has⟩

/-- A fold of parsers keeps a property that each of its steps keeps. -/
theorem yields_foldlM {f : β → α → Parser β} {as : List α}
    (hf : ∀ a ∈ as, ∀ b, Q b → Yields (f b a) Q) {b : β} (hb : Q b) : Yields (as.foldlM f b) Q := by
  induction as generalizing b with
  | nil => exact yields_pure hb
  | cons a as ih =>
    rw [List.foldlM_cons]
    exact (hf a List.mem_cons_self b hb).bind fun next hnext =>
      ih (fun a ha => hf a (List.mem_cons_of_mem _ ha)) hnext

end Yields

end SequenceMachine.Toml.Parser
