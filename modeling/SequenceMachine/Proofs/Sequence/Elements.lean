import SequenceMachine.Proofs.Sequence.Atomic

namespace SequenceMachine.Sequence

variable {α ε : Type} {s t : Sequence α} {left right : Int} {a : α}

theorem mem_of_get_eq_ok {index : Int} (h : s.get index = .ok a) : a ∈ s.elements := by
  obtain ⟨p, _, hread⟩ := Outcome.bind_eq_ok_iff.mp h
  unfold read at hread
  split at hread
  · next found hfound =>
    obtain rfl := Outcome.ok.inj hread
    exact List.mem_of_getElem? hfound
  · cases hread

theorem mem_of_stateAfter_set {index : Int} {value : α}
    (h : Action.stateAfter (set index value) s = .ok t) (ha : a ∈ t.elements) :
    a ∈ s.elements ∨ a = value := by
  obtain ⟨p, _, rfl⟩ := exists_position_of_stateAfter_set h
  exact List.mem_or_eq_of_mem_set ha

theorem mem_of_mem_takeTurns {buffer rest : List α} {n : Nat} (h : a ∈ takeTurns buffer rest n) :
    a ∈ rest ∨ a ∈ buffer := by
  induction n generalizing rest with
  | zero => cases rest <;> cases h
  | succ n ih =>
    cases rest with
    | cons b rest =>
      rcases List.mem_cons.mp h with rfl | hlater
      · exact .inl List.mem_cons_self
      · exact (ih hlater).imp_left (List.mem_cons_of_mem b)
    | nil =>
      right
      cases buffer with
      | nil => cases h
      | cons b buffer =>
        rcases List.mem_cons.mp h with rfl | hlater
        · exact List.mem_cons_self
        · rcases ih hlater with hrest | hbuffer
          · exact List.mem_cons_of_mem b hrest
          · exact hbuffer

/-- A slice holds elements of the sequence only. -/
theorem mem_of_slice_eq_ok (h : (s.slice left right : Outcome ε (Sequence α)) = .ok t)
    (ha : a ∈ t.elements) : a ∈ s.elements := by
  unfold slice at h
  split at h
  · obtain rfl := Outcome.ok.inj h
    cases ha
  · split at h
    · split at h
      · obtain rfl := Outcome.ok.inj h
        cases ha
      · obtain ⟨start, _, h⟩ := Outcome.bind_eq_ok_iff.mp h
        split at h
        · obtain rfl := Outcome.ok.inj h
          rcases mem_of_mem_takeTurns ha with hfirst | hlater
          · exact List.mem_of_mem_drop hfirst
          · exact hlater
        · cases h
    · split at h
      · obtain rfl := Outcome.ok.inj h
        cases ha
      · obtain ⟨copied, hcopied, h⟩ := Outcome.bind_eq_ok_iff.mp h
        obtain rfl := Outcome.ok.inj h
        unfold copyRange at hcopied
        split at hcopied
        · obtain rfl := Outcome.ok.inj hcopied
          exact List.mem_of_mem_take (List.mem_of_mem_drop ha)
        · cases hcopied

theorem mem_of_mem_write {found : Target} {source buffer : List α}
    (h : a ∈ found.write source buffer) : a ∈ source ∨ a ∈ buffer := by
  cases found with
  | contiguous start stop =>
    simp only [Target.write, List.mem_append] at h
    rcases h with (hbefore | hsource) | hbehind
    · exact .inr (List.mem_of_mem_take hbefore)
    · exact .inl hsource
    · exact .inr (List.mem_of_mem_drop hbehind)
  | bridging start stop =>
    simp only [Target.write, List.mem_append] at h
    rcases h with (hlast | hkept) | hfirst
    · exact .inl (List.mem_of_mem_drop hlast)
    · exact .inr (List.mem_of_mem_take (List.mem_of_mem_drop hkept))
    · exact .inl (List.mem_of_mem_take hfirst)

/-- After an assignment each element is one of the source or was there before. -/
theorem mem_of_stateAfter_assign {source : List α}
    (h : Action.stateAfter (assign left right source) s = .ok t) (ha : a ∈ t.elements) :
    a ∈ source ∨ a ∈ s.elements := by
  obtain ⟨found, _, rfl⟩ := exists_target_of_stateAfter_assign h
  exact mem_of_mem_write ha

end SequenceMachine.Sequence
