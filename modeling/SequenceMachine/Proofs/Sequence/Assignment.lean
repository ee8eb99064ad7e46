import SequenceMachine.Proofs.Sequence.Target

namespace SequenceMachine.Sequence

variable {α : Type}

section Bridging
variable {buffer source : List α} {start : Nat} (hle : source.length ≤ buffer.length)
  (hstart : start < buffer.length) (hend : buffer.length < start + source.length)
include hle hstart hend

/-- A bridging target holds the source from its start on, around the end of the buffer. -/
theorem getElem?_write_bridging {j : Nat} (hj : j < source.length) :
    ((Target.bridging start (start + source.length - buffer.length)).write source buffer)[
      (start + j) % buffer.length]? = source[j]? := by
  have hhead : (source.drop (buffer.length - start)).length =
      start + source.length - buffer.length := by
    rw [List.length_drop]
    omega
  have hkept : ((buffer.take start).drop (start + source.length - buffer.length)).length =
      buffer.length - source.length := by
    rw [List.length_drop, List.length_take]
    omega
  by_cases hturn : start + j < buffer.length
  · -- Before the end of the buffer stands the first part of the source, after all that is kept.
    rw [Nat.mod_eq_of_lt hturn, Target.write, List.getElem?_append_right, List.length_append, hhead,
      hkept, List.getElem?_take_of_lt (by omega)]
    · congr 1
      omega
    · rw [List.length_append, hhead, hkept]
      omega
  · -- The rest of the source stands at the beginning.
    rw [Nat.mod_eq_sub_mod (by omega), Nat.mod_eq_of_lt (by omega), Target.write, List.append_assoc,
      List.getElem?_append_left (by omega), List.getElem?_drop]
    congr 1
    omega

/-- A bridging target keeps the elements that it does not reach. -/
theorem getElem?_write_bridging_of_ne {q : Nat}
    (hq : ∀ j, j < source.length → q ≠ (start + j) % buffer.length) :
    ((Target.bridging start (start + source.length - buffer.length)).write source buffer)[q]? =
      buffer[q]? := by
  have hlength : ((Target.bridging start (start + source.length - buffer.length)).write source
      buffer).length = buffer.length :=
    Target.length_write (t := .bridging _ _) ⟨by omega, by omega, by omega⟩
  by_cases hout : buffer.length ≤ q
  · rw [List.getElem?_eq_none (by omega), List.getElem?_eq_none hout]
  · -- A position in the buffer that no step reaches lies between the two stretches.
    have hlow : start + source.length - buffer.length ≤ q := by
      apply Nat.le_of_not_lt
      intro hlt
      apply hq (q + buffer.length - start) (by omega)
      rw [show start + (q + buffer.length - start) = q + buffer.length by omega, Nat.add_mod_right,
        Nat.mod_eq_of_lt (by omega)]
    have hhigh : q < start := by
      apply Nat.lt_of_not_le
      intro hge
      apply hq (q - start) (by omega)
      rw [show start + (q - start) = q by omega, Nat.mod_eq_of_lt (by omega)]
    have hhead : (source.drop (buffer.length - start)).length =
        start + source.length - buffer.length := by
      rw [List.length_drop]
      omega
    rw [Target.write, List.append_assoc, List.getElem?_append_right (by omega), hhead,
      List.getElem?_append_left (by rw [List.length_drop, List.length_take]; omega),
      List.getElem?_drop, List.getElem?_take_of_lt (by omega)]
    congr 1
    omega

end Bridging

variable {s : Sequence α} {left right : Int} {source : List α}

/-- An assignment to a bounded sequence replaces the range between its clamped bounds. -/
theorem assign_bounded (hmode : s.mode = .bounded) :
    let start := Index.clamp left s.length
    let stop := max start (Index.clamp right s.length)
    assign left right source s =
      ⟨.ok (), { s with elements := s.elements.take start ++ source ++ s.elements.drop stop },
        [.contiguous start stop source.length]⟩ := by
  have htarget : s.target left right source.length =
      .ok (.contiguous (Index.clamp left s.length)
        (max (Index.clamp left s.length) (Index.clamp right s.length))) := by
    simp only [target, hmode]
    rfl
  exact assign_apply_of_target htarget

/-- An assignment that is not answered writes nothing. -/
theorem state_assign_of_ne_ok (h : (assign left right source s).outcome ≠ .ok ()) :
    (assign left right source s).state = s := by
  cases htarget : s.target left right source.length with
  | ok t =>
    rw [assign_apply_of_target htarget] at h
    exact absurd rfl h
  | error e => rw [assign_apply_of_error htarget]
  | fault c => rw [assign_apply_of_fault htarget]

/-- Assigning keeps the mode, whatever comes of it. -/
theorem mode_assign (left right : Int) (source : List α) (s : Sequence α) :
    (assign left right source s).state.mode = s.mode := by
  cases htarget : s.target left right source.length with
  | ok t => rw [assign_apply_of_target htarget]
  | error e => rw [assign_apply_of_error htarget]
  | fault c => rw [assign_apply_of_fault htarget]

section Cyclic
variable (hmode : s.mode = .cyclic) (hs : (s.length : Int) ≤ Index.greatest)
include hmode

/-- A range of more than one turn is refused for any source. -/
theorem assign_cyclic_of_lt (h : (s.length : Int) < right - left) :
    assign left right source s =
      ⟨.error (.overWrapped left right s.length), s,
        [.refused left right s.length source.length (.overWrapped left right s.length)]⟩ :=
  assign_apply_of_error (target_cyclic_of_lt hmode h)

include hs

/-- An assignment to an empty or inverted range inserts at the position of the left bound. -/
theorem assign_cyclic_of_le (h : right ≤ left) :
    let start := Index.residue left s.length
    assign left right source s =
      ⟨.ok (), { s with elements := s.elements.take start ++ source ++ s.elements.drop start },
        [.contiguous start start source.length]⟩ :=
  assign_apply_of_target (target_cyclic_of_le hmode hs h)

/-- An assignment to a range that stays in the buffer replaces the range, whatever the source. -/
theorem assign_cyclic_inside {span : Nat} (hpos : 0 < span)
    (hend : Index.residue left s.length + span ≤ s.length) :
    let start := Index.residue left s.length
    assign left (left + span) source s =
      ⟨.ok (), { s with elements := s.elements.take start ++ source ++ s.elements.drop (start + span) },
        [.contiguous start (start + span) source.length]⟩ :=
  assign_apply_of_target (target_cyclic_inside hmode hs hpos hend)

/-- Across the end of the buffer the beginning of the source fills the end, and its rest the beginning. -/
theorem assign_cyclic_across (hle : source.length ≤ s.length)
    (hend : s.length < Index.residue left s.length + source.length) :
    let start := Index.residue left s.length
    let stop := start + source.length - s.length
    assign left (left + source.length) source s =
      ⟨.ok (), { s with elements := (Target.bridging start stop).write source s.elements },
        [.bridging start stop source.length]⟩ := by
  have htarget : s.target left (left + source.length) source.length = _ :=
    target_cyclic_across hmode hs hle hend
  rw [if_pos rfl] at htarget
  exact assign_apply_of_target htarget

/-- Across the end of the buffer a range can neither grow nor shrink. -/
theorem assign_cyclic_across_of_ne {span : Nat} (hle : span ≤ s.length)
    (hend : s.length < Index.residue left s.length + span) (hne : source.length ≠ span) :
    assign left (left + span) source s =
      ⟨.error (.bridgeSize span source.length), s,
        [.refused left (left + span) s.length source.length (.bridgeSize span source.length)]⟩ := by
  have htarget : s.target left (left + span) source.length = _ :=
    target_cyclic_across hmode hs hle hend
  rw [if_neg hne] at htarget
  exact assign_apply_of_error htarget

end Cyclic

/-- What an assignment does, for all bounds and sources. A bounded sequence always accepts it. A cyclic
one accepts an empty or inverted range and a range that stays in the buffer for every source, a range
that crosses the end of the buffer for a source that fills it, and no range of more than one turn. A
refused assignment changes nothing, and none changes the mode. -/
theorem assign_exact (s : Sequence α) (left right : Int) (source : List α)
    (hs : (s.length : Int) ≤ Index.greatest) :
    let r := assign left right source s
    let n := s.length
    let w := right - left
    let p := Index.residue left n
    (s.mode = .bounded → r.outcome = .ok () ∧
      r.state.elements = s.elements.take (Index.clamp left n) ++ source
        ++ s.elements.drop (max (Index.clamp left n) (Index.clamp right n))) ∧
    (s.mode = .cyclic →
      (w ≤ 0 → r.outcome = .ok () ∧
        r.state.elements = s.elements.take p ++ source ++ s.elements.drop p) ∧
      (n < w → r.outcome = .error (.overWrapped left right n)) ∧
      (1 ≤ w → w ≤ n → p + w ≤ n → r.outcome = .ok () ∧
        r.state.elements = s.elements.take p ++ source ++ s.elements.drop (p + w.toNat)) ∧
      (1 ≤ w → w ≤ n → n < p + w →
        (source.length = w → r.outcome = .ok () ∧
          (∀ j, j < source.length → r.state.elements[(p + j) % n]? = source[j]?) ∧
          (∀ q, (∀ j, j < source.length → q ≠ (p + j) % n) →
            r.state.elements[q]? = s.elements[q]?)) ∧
        (source.length ≠ w → r.outcome = .error (.bridgeSize w.toNat source.length)))) ∧
    (r.outcome ≠ .ok () → r.state = s) ∧ r.state.mode = s.mode := by
  intro r n w p
  have hp : Index.residue left s.length = p := rfl
  refine ⟨?_, ?_, ?_, ?_⟩
  · intro hmode
    have happly : r = _ := assign_bounded hmode
    rw [happly]
    exact ⟨rfl, rfl⟩
  · intro hmode
    refine ⟨?_, ?_, ?_, ?_⟩
    · intro hw
      have happly : r = _ := assign_cyclic_of_le hmode hs (by omega)
      rw [happly]
      exact ⟨rfl, rfl⟩
    · intro hw
      have happly : r = _ := assign_cyclic_of_lt hmode hw
      rw [happly]
    · -- The bounds are at most one turn apart, so the right one is the left one and some steps.
      intro hpos hle hend
      have happly : assign left (left + w.toNat) source s = _ :=
        assign_cyclic_inside hmode hs (by omega) (by omega)
      have hright : left + (w.toNat : Int) = right := by omega
      rw [hright] at happly
      have hr : r = _ := happly
      rw [hr]
      exact ⟨rfl, rfl⟩
    · intro hpos hle hend
      have hright : left + (w.toNat : Int) = right := by omega
      constructor
      · intro hfill
        have hlength : w.toNat = source.length := by omega
        have hn : s.elements.length = s.length := rfl
        have hne : s.length ≠ 0 := by omega
        have hstart : p < s.length := Index.residue_lt left hne
        have happly : assign left (left + source.length) source s = _ :=
          assign_cyclic_across hmode hs (by omega) (by omega)
        rw [← hlength, hright, hlength] at happly
        have hr : r = _ := happly
        rw [hr]
        refine ⟨rfl, ?_, ?_⟩
        · intro j hj
          exact getElem?_write_bridging (by omega) hstart (by omega) hj
        · intro q hq
          exact getElem?_write_bridging_of_ne (by omega) hstart (by omega) hq
      · intro hne
        have happly : assign left (left + w.toNat) source s = _ :=
          assign_cyclic_across_of_ne hmode hs (by omega) (by omega) (by omega)
        rw [hright] at happly
        have hr : r = _ := happly
        rw [hr]
  · intro hfail
    exact state_assign_of_ne_ok hfail
  · exact mode_assign left right source s

/-- A source that fills the range across the end of a cyclic sequence. -/
theorem assign_exact_across_end :
    ((⟨[0, 1, 2, 3], .cyclic⟩ : Sequence Nat).length : Int) ≤ Index.greatest ∧
      (assign 3 5 [8, 9] (⟨[0, 1, 2, 3], .cyclic⟩ : Sequence Nat)).outcome = .ok () ∧
      (assign 3 5 [8, 9] (⟨[0, 1, 2, 3], .cyclic⟩ : Sequence Nat)).state.elements[(3 + 1) % 4]? = some 9 := by
  have h := assign_exact (⟨[0, 1, 2, 3], .cyclic⟩ : Sequence Nat) 3 5 [8, 9] (by decide)
  have hacross := ((h.2.1 rfl).2.2.2 (by decide) (by decide) (by decide)).1 (by decide)
  exact ⟨by decide, hacross.1, hacross.2.1 1 (by decide)⟩

end SequenceMachine.Sequence
