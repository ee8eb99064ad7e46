import SequenceMachine.Proofs.Sequence.Accepted

namespace SequenceMachine.Sequence

variable {α : Type} {s t : Sequence α} {left right : Int} {source : List α}

/-- A bounded sequence keeps what lies outside the clamped bounds around the source. -/
theorem elements_of_ending_assign_bounded (hmode : s.mode = .bounded)
    (h : (assign left right source s).ending = (.ok (), t)) :
    t.elements = s.elements.take (Index.clamp left s.length) ++ source ++
      s.elements.drop (max (Index.clamp left s.length) (Index.clamp right s.length)) := by
  have hstate : (assign left right source s).state = t := congrArg Prod.snd h
  rw [← hstate, assign_bounded hmode]

/-- What is read of a bounded sequence after an assignment. -/
theorem slices_of_accepted_bounded (hmode : s.mode = .bounded) (ht : t.length ≤ Size.capacity)
    (h : (assign left right source s).ending = (.ok (), t)) :
    let p := Index.clamp left s.length
    (t.slice p (p + source.length) : Outcome Error (Sequence α)) = .ok (ofList source) ∧
    (t.slice 0 t.length : Outcome Error (Sequence α)) = .ok (ofList (s.elements.take p ++ source ++
      s.elements.drop (max p (Index.clamp right s.length)))) := by
  intro p
  have ht' := Index.le_greatest_of_le_capacity ht
  have hmode' := (mode_of_ending_assign h).trans hmode
  have helements : t.elements = s.elements.take p ++ source ++
      s.elements.drop (max p (Index.clamp right s.length)) :=
    elements_of_ending_assign_bounded hmode h
  have hbefore : (s.elements.take p).length = p := List.length_take_of_le (Index.clamp_le left s.length)
  have hwritten : (s.elements.take p ++ source).length = p + source.length := by
    rw [List.length_append, hbefore]
  have hend : p + source.length ≤ t.length := by
    have hlength := congrArg List.length helements
    rw [List.length_append, hwritten] at hlength
    change t.length = _ at hlength
    omega
  constructor
  · rw [← Int.natCast_add, slice_bounded_natCast hmode' ht' (Nat.le_add_right p _) hend, helements,
      List.take_left' hwritten, List.drop_left' hbefore]
  · have hwhole := slice_bounded_natCast (ε := Error) hmode' ht' (Nat.zero_le _) (Nat.le_refl t.length)
    have hall : t.elements.take t.length = t.elements := List.take_length
    rw [hall, List.drop_zero, helements] at hwhole
    exact hwhole

/-- What is read of a cyclic sequence after an assignment, from the start of the target on. -/
theorem slices_of_accepted_cyclic (hmode : s.mode = .cyclic) (hs : (s.length : Int) ≤ Index.greatest)
    (ht : t.length ≤ Size.capacity) (h : (assign left right source s).ending = (.ok (), t)) :
    let p := Index.residue left s.length
    let w := (right - left).toNat
    (t.slice p (p + source.length) : Outcome Error (Sequence α)) = .ok (ofList source) ∧
    (t.slice p (p + t.length) : Outcome Error (Sequence α)) =
      .ok (ofList (source ++ s.turns (p + w) (s.length - w))) := by
  intro p w
  have ht' := Index.le_greatest_of_le_capacity ht
  have hmode' := (mode_of_ending_assign h).trans hmode
  have hturn : t.turns p t.length = source ++ s.turns (p + w) (s.length - w) :=
    turns_of_accepted hmode hs h
  obtain ⟨hle, hlength⟩ := length_of_accepted hmode hs h
  have hsource : source.length ≤ t.length := by omega
  have hspan (n : Nat) : ((p : Int) + n - p).toNat = n := by omega
  constructor
  · have hread : t.turns p source.length = source := by
      rw [← take_turns t p hsource, hturn, List.take_left' rfl]
    rw [slice_cyclic hmode' ht' (by rw [hspan]; omega), hspan, hread]
  · rw [slice_cyclic hmode' ht' (by rw [hspan]; omega), hspan, hturn]

/-- An accepted write is read back, and the rest is kept. From the start of the target on, the source is
read. In a bounded sequence it stands between what was before and what was behind the target. In a cyclic
one it is followed, around the end of the buffer, by what was read from the end of the target on. The
sequence that is left is within the capacity, as all are that can be held. -/
theorem assign_read_back (hs : (s.length : Int) ≤ Index.greatest) (ht : t.length ≤ Size.capacity)
    (h : (assign left right source s).ending = (.ok (), t)) :
    (s.mode = .bounded →
      let p := Index.clamp left s.length
      let e := max p (Index.clamp right s.length)
      (t.slice p (p + source.length) : Outcome Error (Sequence α)) = .ok (ofList source) ∧
      ∃ before behind, (s.slice 0 p : Outcome Error (Sequence α)) = .ok before ∧
        (s.slice e s.length : Outcome Error (Sequence α)) = .ok behind ∧
        (t.slice 0 t.length : Outcome Error (Sequence α)) =
          .ok (ofList (before.elements ++ source ++ behind.elements))) ∧
    (s.mode = .cyclic →
      let p := Index.residue left s.length
      let w := max 0 (right - left)
      (t.slice p (p + source.length) : Outcome Error (Sequence α)) = .ok (ofList source) ∧
      ∃ rest, (s.slice (p + w) (p + s.length) : Outcome Error (Sequence α)) = .ok rest ∧
        (t.slice p (p + t.length) : Outcome Error (Sequence α)) =
          .ok (ofList (source ++ rest.elements))) := by
  constructor
  · intro hmode p e
    have hp : p ≤ s.length := Index.clamp_le left s.length
    have he : e ≤ s.length := Nat.max_le.mpr ⟨hp, Index.clamp_le right s.length⟩
    have hall : s.elements.take s.length = s.elements := List.take_length
    have hbefore := slice_bounded_natCast (ε := Error) hmode hs (Nat.zero_le p) hp
    have hbehind := slice_bounded_natCast (ε := Error) hmode hs he (Nat.le_refl _)
    obtain ⟨hread, hwhole⟩ := slices_of_accepted_bounded hmode ht h
    rw [List.drop_zero] at hbefore
    rw [hall] at hbehind
    exact ⟨hread, _, _, hbefore, hbehind, hwhole⟩
  · intro hmode p w
    obtain ⟨hle, hlength⟩ := length_of_accepted hmode hs h
    obtain ⟨hread, hturn⟩ := slices_of_accepted_cyclic hmode hs ht h
    have hw : w = ((right - left).toNat : Int) := by omega
    have hspan : ((p : Int) + s.length - (p + (right - left).toNat)).toNat =
        s.length - (right - left).toNat := by omega
    have hrest : (s.slice (p + (right - left).toNat) (p + s.length) : Outcome Error (Sequence α)) =
        .ok (ofList (s.turns (p + (right - left).toNat) (s.length - (right - left).toNat))) := by
      rw [slice_cyclic hmode hs (by rw [hspan]; omega), hspan]
    rw [hw]
    exact ⟨hread, _, hrest, hturn⟩

/-- A cyclic sequence that grows: one turn from position 1 passes the new end of the buffer. -/
theorem assign_read_back_growing :
    let s : Sequence Nat := ⟨[0, 1, 2, 3], .cyclic⟩
    let t : Sequence Nat := ⟨[0, 7, 8, 9, 2, 3], .cyclic⟩
    (s.length : Int) ≤ Index.greatest ∧ t.length ≤ Size.capacity ∧
      (assign 5 6 [7, 8, 9] s).ending = (.ok (), t) ∧
      (t.slice 1 4 : Outcome Error (Sequence Nat)) = .ok (ofList [7, 8, 9]) ∧
      ∃ rest, (s.slice 2 5 : Outcome Error (Sequence Nat)) = .ok rest ∧
        (t.slice 1 7 : Outcome Error (Sequence Nat)) = .ok (ofList ([7, 8, 9] ++ rest.elements)) := by
  intro s t
  have hs : (s.length : Int) ≤ Index.greatest := by decide
  have ht : t.length ≤ Size.capacity := by decide
  have h : (assign 5 6 [7, 8, 9] s).ending = (.ok (), t) := by decide
  have hp : Index.residue 5 s.length = 1 := by decide
  obtain ⟨hread, rest, hrest, hturn⟩ := (assign_read_back hs ht h).2 rfl
  rw [hp] at hread hrest hturn
  exact ⟨hs, ht, h, hread, rest, hrest, hturn⟩

theorem take_append_drop_take (buffer : List α) (start stop : Nat) :
    buffer.take start ++ (buffer.take stop).drop start = buffer.take (max start stop) := by
  rcases Nat.le_total start stop with hle | hle
  · have htake : buffer.take start = (buffer.take stop).take start := by
      rw [List.take_take, Nat.min_eq_left hle]
    rw [Nat.max_eq_right hle, htake, List.take_append_drop]
  · have hnothing : (buffer.take stop).drop start = [] :=
      List.drop_eq_nil_of_le (Nat.le_trans (List.length_take_le stop buffer) hle)
    rw [Nat.max_eq_left hle, hnothing, List.append_nil]

section RoundTrip
variable (s)

/-- Writing back what was read between clamped bounds changes nothing. -/
theorem assign_slice_bounded (hmode : s.mode = .bounded) (left right : Int) :
    (assign left right
      ((s.elements.take (Index.clamp right s.length)).drop (Index.clamp left s.length)) s).ending =
      (.ok (), s) := by
  rw [assign_bounded hmode, Action.ending_mk, take_append_drop_take, List.take_append_drop]

/-- Nor does writing back at most one turn of a cyclic sequence. -/
theorem assign_turns_cyclic (hmode : s.mode = .cyclic) (hs : (s.length : Int) ≤ Index.greatest)
    (hle : right - left ≤ s.length) :
    (assign left right (s.turns left (right - left).toNat) s).ending = (.ok (), s) := by
  let w := (right - left).toNat
  have hw : w ≤ s.length := by omega
  have hfill : (s.turns left w).length = w := length_turns_of_le s left hw
  obtain ⟨t, ht⟩ := exists_accepted_of_fill hmode hs hle hfill
  obtain ⟨hlength, hwritten⟩ := turns_of_filled hmode hs hfill ht
  -- One turn from the left bound on reads the same before and after.
  have hturn : t.turns left t.length = s.turns left s.length := by
    calc
      t.turns left t.length = s.turns left w ++ s.turns (left + w) (s.length - w) := by
        rw [hwritten, hfill]
      _ = s.turns left s.length := by rw [← turns_add, Nat.add_sub_cancel' hw]
  have heq : t = s := eq_of_turns_eq left (mode_of_ending_assign ht) hlength hturn
  rw [heq] at ht
  exact ht

end RoundTrip

/-- Writing back what was read changes nothing, for all bounds, in either mode. A cyclic range of more
than one turn can be read but is never written. -/
theorem assign_slice_self (hs : s.length ≤ Size.capacity) (left right : Int) :
    (¬ (s.mode = .cyclic ∧ (s.length : Int) < right - left) →
      ∃ read, (s.slice left right : Outcome Error (Sequence α)) = .ok read ∧
        (assign left right read.elements s).ending = (.ok (), s)) ∧
    (s.mode = .cyclic ∧ (s.length : Int) < right - left →
      ∀ source, (assign left right source s).ending =
        (.error (.overWrapped left right s.length), s)) := by
  have hs' := Index.le_greatest_of_le_capacity hs
  constructor
  · intro hturn
    cases hmode : s.mode with
    | bounded => exact ⟨_, slice_bounded hmode left right, assign_slice_bounded s hmode left right⟩
    | cyclic =>
      have hle : right - left ≤ s.length := by
        apply Int.not_lt.mp
        intro hlt
        exact hturn ⟨hmode, hlt⟩
      exact ⟨_, slice_cyclic hmode hs' (by omega), assign_turns_cyclic s hmode hs' hle⟩
  · rintro ⟨hmode, hlt⟩ source
    rw [assign_cyclic_of_lt hmode hlt]
    rfl

/-- A range across the end of the buffer, given by bounds of different signs. -/
theorem assign_slice_self_across_end :
    let s : Sequence Nat := ⟨[0, 1, 2, 3], .cyclic⟩
    s.length ≤ Size.capacity ∧ ¬ (s.mode = .cyclic ∧ (s.length : Int) < 2 - (-1)) ∧
      (s.slice (-1) 2 : Outcome Error (Sequence Nat)) = .ok (ofList [3, 0, 1]) ∧
      ∃ read, (s.slice (-1) 2 : Outcome Error (Sequence Nat)) = .ok read ∧
        (assign (-1) 2 read.elements s).ending = (.ok (), s) := by
  intro s
  have hs : s.length ≤ Size.capacity := by decide
  have hturn : ¬ (s.mode = .cyclic ∧ (s.length : Int) < 2 - (-1)) := by decide
  exact ⟨hs, hturn, by decide, (assign_slice_self hs (-1) 2).1 hturn⟩

end SequenceMachine.Sequence
