import SequenceMachine.Proofs.Sequence.Position
import SequenceMachine.Sequence.Call

namespace SequenceMachine.Sequence

variable {α β : Type}

structure Proper (x : Edit α β) : Prop where
  atomic : Action.Atomic x
  mode (s : Sequence α) : (x s).state.mode = s.mode

section Proper
variable {x : Edit α β}

theorem proper_of_reads (hx : Action.Reads x) : Proper x where
  atomic := hx.atomic
  mode s := by rw [hx s s rfl]

theorem Proper.bind_pure (hx : Proper x) (g : β → Answer α) :
    Proper (x >>= fun b => pure (g b) : Edit α (Answer α)) where
  atomic := hx.atomic.bind_pure g
  mode s := by rw [Action.state_bind_pure, hx.mode]

theorem proper_modify (f : Sequence α → Sequence α) (hf : ∀ s, (f s).mode = s.mode) :
    Proper (Action.modify f : Edit α Unit) where
  atomic := Action.atomic_modify f
  mode := hf

/-- The answer is found by looking at the sequence. -/
theorem proper_look (g : Sequence α → Answer α) :
    Proper (do return g (← Action.state) : Edit α (Answer α)) :=
  (proper_of_reads Action.reads_state).bind_pure g

/-- The answer is found by a search that may fail. -/
theorem proper_search (f : Sequence α → Outcome Error β) (g : β → Answer α) :
    Proper (do return g (← (f (← Action.state) : Outcome Error β)) : Edit α (Answer α)) := by
  apply proper_of_reads
  refine Action.reads_state.bind fun s => ?_
  exact (Action.reads_ofOutcome (f s)).bind fun b => Action.reads_ofOutcome (.ok (g b))

theorem proper_exchange (index : Int) (value : α) : Proper (exchange index value) where
  atomic := atomic_exchange index value
  mode s := by
    have hstate : (exchange index value s).state = (set index value s).state :=
      (Action.state_bind_pure (exchange index value) (fun _ => ()) s).symm
    rw [hstate, set_apply]
    cases s.position index <;> rfl

theorem proper_set (index : Int) (value : α) : Proper (set index value) where
  atomic := atomic_set index value
  mode s := by
    rw [set_apply]
    cases s.position index <;> rfl

theorem proper_pop : Proper (pop : Edit α (Option α)) where
  atomic := Action.atomic_update _
  mode _ := rfl

theorem proper_insert (index : Int) (items : List α) : Proper (insert index items) where
  atomic := atomic_insert index items
  mode s := by
    rw [insert_apply]
    cases s.insertPosition index <;> rfl

theorem proper_delete (first last : Int) : Proper (delete first last : Edit α Unit) where
  atomic s hfail := by
    rcases delete_cases s first last with ⟨elements, hdone⟩ | ⟨e, hrefused⟩
    · rw [hdone] at hfail
      exact absurd rfl (hfail ())
    · rw [hrefused]
  mode s := by
    rcases delete_cases s first last with ⟨elements, hdone⟩ | ⟨e, hrefused⟩
    · rw [hdone]
    · rw [hrefused]

theorem proper_assign (left right : Int) (source : List α) : Proper (assign left right source) where
  atomic := atomic_assign left right source
  mode := mode_assign left right source

/-- The copy that is taken first changes nothing. -/
theorem proper_assignSelf (left right : Int) : Proper (assignSelf left right : Edit α Unit) where
  atomic s hfail := by
    have hending := ending_assignSelf left right s
    have houtcome : (assignSelf left right s).outcome = (assign left right s.elements s).outcome :=
      congrArg Prod.fst hending
    have hstate : (assignSelf left right s).state = (assign left right s.elements s).state :=
      congrArg Prod.snd hending
    rw [houtcome] at hfail
    rw [hstate]
    exact atomic_assign left right s.elements s hfail
  mode s := by
    have hstate : (assignSelf left right s).state = (assign left right s.elements s).state :=
      congrArg Prod.snd (ending_assignSelf left right s)
    rw [hstate, mode_assign]

theorem proper_perform (c : Call α) : Proper (perform c) := by
  cases c with
  | length => exact proper_look fun s => .size s.length
  | isEmpty => exact proper_look fun s => .flag s.isEmpty
  | isCyclic => exact proper_look fun s => .flag s.isCyclic
  | elements => exact proper_look fun s => .elements s.elements
  | get index => exact proper_search (fun s => s.get index) .element
  | set index value => exact (proper_set index value).bind_pure fun _ => .done
  | exchange index value => exact (proper_exchange index value).bind_pure .element
  | push value => exact (proper_modify (push value) fun _ => rfl).bind_pure fun _ => .done
  | pop => exact proper_pop.bind_pure .popped
  | append items => exact (proper_modify (append items) fun _ => rfl).bind_pure fun _ => .done
  | insert index items => exact (proper_insert index items).bind_pure fun _ => .done
  | delete first last => exact (proper_delete first last).bind_pure fun _ => .done
  | clear => exact (proper_modify clear fun _ => rfl).bind_pure fun _ => .done
  | slice left right => exact proper_search (fun s => s.slice left right) .sequence
  | sliceLength left right => exact proper_look fun s => .size (s.sliceLength left right)
  | assignedLength left right sourceLength =>
    exact proper_search (fun s => s.assignedLength left right sourceLength) .size
  | assign left right source => exact (proper_assign left right source).bind_pure fun _ => .done
  | assignSelf left right => exact (proper_assignSelf left right).bind_pure fun _ => .done

end Proper

def transcript : List (Call α) → Sequence α → List (Call α × Outcome Error (Answer α))
  | [], _ => []
  | c :: calls, s => (c, (perform c s).outcome) :: transcript calls (perform c s).state

def leave : List (Call α) → Sequence α → Sequence α
  | [], s => s
  | c :: calls, s => leave calls (perform c s).state

def accepted : Call α × Outcome Error (Answer α) → Bool
  | (_, .error _) => false
  | _ => true

theorem exists_error_of_not_accepted {c : Call α} {x : Outcome Error (Answer α)}
    (h : ¬ accepted (c, x) = true) : ∃ e, x = .error e := by
  cases x with
  | error e => exact ⟨e, rfl⟩
  | ok a => exact absurd rfl h
  | fault f => exact absurd rfl h

section Runs
variable {s : Sequence α} {c : Call α} {e : Error}

/-- A refused call leaves the sequence as it was. -/
theorem state_of_refused (h : (perform c s).outcome = .error e) : (perform c s).state = s := by
  apply (proper_perform c).atomic
  intro a ha
  rw [h] at ha
  cases ha

/-- No run of calls changes the mode. -/
theorem mode_leave (calls : List (Call α)) (s : Sequence α) : (leave calls s).mode = s.mode := by
  induction calls generalizing s with
  | nil => rfl
  | cons c calls ih => rw [leave, ih, (proper_perform c).mode]

/-- One refused call can be left out, wherever it stands. -/
theorem transcript_without_refused (before later : List (Call α))
    (h : (perform c (leave before s)).outcome = .error e) :
    transcript (before ++ later) s = (transcript (before ++ c :: later) s).eraseIdx before.length ∧
      leave (before ++ later) s = leave (before ++ c :: later) s := by
  induction before generalizing s with
  | nil =>
    have hkept : (perform c s).state = s := state_of_refused h
    simp only [List.nil_append, transcript, leave, hkept, List.length_nil, List.eraseIdx_cons_zero,
      and_self]
  | cons d before ih =>
    obtain ⟨hanswers, hlast⟩ := ih h
    simp only [List.cons_append, transcript, leave, List.length_cons, List.eraseIdx_cons_succ, hanswers,
      hlast, and_self]

/-- All refused calls can be left out at once. -/
theorem transcript_accepted (calls : List (Call α)) (s : Sequence α) :
    transcript (((transcript calls s).filter accepted).map Prod.fst) s =
        (transcript calls s).filter accepted ∧
      leave (((transcript calls s).filter accepted).map Prod.fst) s = leave calls s := by
  induction calls generalizing s with
  | nil => exact ⟨rfl, rfl⟩
  | cons c calls ih =>
    obtain ⟨hanswers, hlast⟩ := ih (perform c s).state
    by_cases hentry : accepted (c, (perform c s).outcome) = true
    · rw [transcript, List.filter_cons_of_pos hentry, List.map_cons, transcript, leave, leave, hanswers,
        hlast]
      exact ⟨rfl, rfl⟩
    · -- The calls after the refused one find the sequence as it was before.
      obtain ⟨e, hrefused⟩ := exists_error_of_not_accepted hentry
      have hkept : (perform c s).state = s := state_of_refused hrefused
      rw [hkept] at hanswers hlast
      rw [transcript, List.filter_cons_of_neg hentry, leave, hkept]
      exact ⟨hanswers, hlast⟩

end Runs

/-- A call that is refused leaves the sequence as it was, with its mode, so that any refused call of a
run can be left out, and all of them at once, with the same answers to the other calls and the same
sequence at the end. Calls for single elements are refused exactly where an index names nothing, which is
told by the first such index, or where a bounded sequence is to lose a range whose first position is
behind its last; any other one is answered. -/
theorem refused_calls_leave_no_trace (s : Sequence α) :
    (∀ c e, (perform c s).outcome = .error e → (perform c s).state = s) ∧
    (∀ before c later e, (perform c (leave before s)).outcome = .error e →
      transcript (before ++ later) s = (transcript (before ++ c :: later) s).eraseIdx before.length ∧
      leave (before ++ later) s = leave (before ++ c :: later) s) ∧
    (∀ calls,
      transcript (((transcript calls s).filter accepted).map Prod.fst) s =
        (transcript calls s).filter accepted ∧
      leave (((transcript calls s).filter accepted).map Prod.fst) s = leave calls s) ∧
    (∀ calls, (leave calls s).mode = s.mode) ∧
    ((s.length : Int) ≤ Index.greatest →
      (∀ index e, s.get index = .error e ↔ s.Misses index ∧ e = .outOfBounds index s.length) ∧
      (∀ index value e, (exchange index value s).outcome = .error e ↔
        s.Misses index ∧ e = .outOfBounds index s.length) ∧
      (∀ index value e, (set index value s).outcome = .error e ↔
        s.Misses index ∧ e = .outOfBounds index s.length) ∧
      (∀ index items e, (insert index items s).outcome = .error e ↔
        s.MissesPlace index ∧ e = .outOfBounds index s.length) ∧
      ∀ first last e, (delete first last s).outcome = .error e ↔
        s.Misses first ∧ e = .outOfBounds first s.length ∨
        ¬ s.Misses first ∧ s.Misses last ∧ e = .outOfBounds last s.length ∨
        ¬ s.Misses first ∧ ¬ s.Misses last ∧ s.mode = .bounded ∧
          Index.fromStart last s.length < Index.fromStart first s.length ∧
          e = .invertedRange first last s.length) ∧
    (∀ index value items last, (s.get index).Faultless ∧ (exchange index value s).outcome.Faultless ∧
      (set index value s).outcome.Faultless ∧ (insert index items s).outcome.Faultless ∧
      (delete index last s).outcome.Faultless) := by
  refine ⟨?kept, ?one, ?all, ?mode, ?refused, ?answered⟩
  case kept => exact fun c e h => state_of_refused h
  case one => exact fun before c later e h => transcript_without_refused before later h
  case all => exact fun calls => transcript_accepted calls s
  case mode => exact fun calls => mode_leave calls s
  case refused =>
    intro hs
    refine ⟨fun index e => get_eq_error_iff hs, ?_, ?_, ?_, ?_⟩
    · intro index value e
      rw [outcome_exchange, get_eq_error_iff hs]
    · intro index value e
      rw [outcome_set, Outcome.map_eq_error_iff, get_eq_error_iff hs]
    · exact fun index items e => insert_eq_error_iff hs
    · exact fun first last e => delete_eq_error_iff hs
  case answered =>
    intro index value items last
    exact ⟨faultless_get s index, faultless_outcome_exchange s index value,
      faultless_outcome_set s index value, faultless_outcome_insert s index items,
      faultless_outcome_delete s index last⟩

/-- The deletion of an inverted range between a push and a pop. -/
theorem refused_calls_leave_no_trace_inverted :
    let s : Sequence Nat := ofList [10, 20, 30]
    ((s.length : Int) ≤ Index.greatest ∧
      (perform (.delete 3 (-3)) (leave [.push 40] s)).outcome = .error (.invertedRange 3 (-3) 4)) ∧
    (delete 2 (-3) s).outcome = .error (.invertedRange 2 (-3) 3) ∧
    leave ([.push 40] ++ [.pop]) s = leave ([.push 40] ++ .delete 3 (-3) :: [.pop]) s := by
  intro s
  have hs : (s.length : Int) ≤ Index.greatest := by decide
  have hrefused : (perform (.delete 3 (-3)) (leave [.push 40] s)).outcome =
      .error (.invertedRange 3 (-3) 4) := rfl
  obtain ⟨_, hone, _, _, hexact, _⟩ := refused_calls_leave_no_trace s
  obtain ⟨_, _, _, _, hdelete⟩ := hexact hs
  have hfirst : ¬ s.Misses 2 := by
    unfold Misses
    decide
  have hlast : ¬ s.Misses (-3) := by
    unfold Misses
    decide
  have hinverted := (hdelete 2 (-3) (.invertedRange 2 (-3) 3)).mpr
    (.inr (.inr ⟨hfirst, hlast, rfl, by decide, rfl⟩))
  exact ⟨⟨hs, hrefused⟩, hinverted, (hone [.push 40] (.delete 3 (-3)) [.pop] _ hrefused).2⟩

end SequenceMachine.Sequence
