import NPlusOne.Proofs.SearchParts

namespace NPlusOne

namespace Memo

theorem verdictOf_eq_true_iff {m : Memo} {id : DeclarationId} :
    m.verdictOf id = true ↔ m.standing id = .resolved true := by
  rw [verdictOf_eq]
  cases m.standing id <;> simp

theorem standing_begin_of_ne {m : Memo} {d e : DeclarationId} (h : d ≠ e) :
    (m.begin d).2.standing e = m.standing e := by
  by_cases hd : m.standing d = .unvisited
  · rw [standing_begin hd, if_neg h]
  · rw [begin_of_visited hd]

theorem standing_begin_of_visited {m : Memo} {d e : DeclarationId}
    (h : m.standing e ≠ .unvisited) : (m.begin d).2.standing e = m.standing e := by
  by_cases hd : d = e
  · subst hd
    rw [begin_of_visited h]
  · exact standing_begin_of_ne hd

theorem replay_visited {m : Memo} {id : DeclarationId} (h : m.standing id ≠ .unvisited)
    (es : List Event) : (m.replay es).standing id ≠ .unvisited := by
  induction es generalizing m with
  | nil => exact h
  | cons e es ih =>
    apply ih
    cases e with
    | began d other => rwa [Event.onMemo, standing_begin_of_visited h]
    | walked body => exact h
    | reported target about => exact h
    | recorded other verdict =>
      rw [Event.onMemo, standing_record]
      split
      next => simp
      next => exact h

theorem unvisited_of_replay {m : Memo} {id : DeclarationId} {es : List Event}
    (h : (m.replay es).standing id = .unvisited) : m.standing id = .unvisited :=
  Decidable.byContradiction fun hv => replay_visited hv es h

/-- What the events did not name is as it was. -/
theorem replay_untouched {m : Memo} {id : DeclarationId} {es : List Event}
    (hb : ∀ d, Event.began d id ∉ es) (hr : ∀ v, Event.recorded id v ∉ es) :
    (m.replay es).standing id = m.standing id := by
  induction es generalizing m with
  | nil => rfl
  | cons e es ih =>
    have hrest := ih (m := e.onMemo m) (fun d hd => hb d (List.mem_cons_of_mem _ hd))
      (fun v hv => hr v (List.mem_cons_of_mem _ hv))
    rw [replay_cons, hrest]
    cases e with
    | began d other =>
      have hne : other ≠ id := fun he => hb d (by simp [he])
      exact standing_begin_of_ne hne
    | walked body => rfl
    | reported target about => rfl
    | recorded other verdict =>
      have hne : other ≠ id := fun he => hr verdict (by simp [he])
      rw [Event.onMemo, standing_record, if_neg hne]

/-- A verdict was there before or is recorded on the way. -/
theorem replay_resolved {m : Memo} {id : DeclarationId} {v : Bool} {es : List Event}
    (h : (m.replay es).standing id = .resolved v) :
    m.standing id = .resolved v ∨ Event.recorded id v ∈ es := by
  induction es generalizing m with
  | nil => exact .inl h
  | cons e es ih =>
    rcases ih h with hs | hm
    · cases e with
      | began d other =>
        by_cases hd : other = id
        · subst hd
          by_cases hu : m.standing other = .unvisited
          · rw [Event.onMemo, standing_begin hu, if_pos rfl] at hs
            cases hs
          · rw [Event.onMemo, standing_begin_of_visited hu] at hs
            exact .inl hs
        · rw [Event.onMemo, standing_begin_of_ne hd] at hs
          exact .inl hs
      | walked body => exact .inl hs
      | reported target about => exact .inl hs
      | recorded other verdict =>
        rw [Event.onMemo, standing_record] at hs
        split at hs
        next he =>
          cases hs
          exact .inr (by simp [he])
        next => exact .inl hs
    · exact .inr (List.mem_cons_of_mem _ hm)

end Memo

def Event.isReport : Event → Bool
  | reported _ _ => true
  | _ => false

namespace LoopSearch

namespace Runs

variable {ρ : Type} {s : LoopSearch ρ} {holds : ρ → Prop} {met : Cursor → Prop} {n : Nat}
  {errand : Errand} {m : Memo} {es : List Event} {r : Except Failure Bool}

/-- An errand answers true exactly when it tried a report or the answer was true before. -/
theorem answer_eq (h : s.Runs holds n errand m es r) {b : Bool} (hb : r = .ok b) :
    b = (errand.found || es.any Event.isReport) := by
  induction h generalizing b with
  | nowhere | known | emptied | skipped | unnamed | unknown | done =>
    cases hb
    simp [Errand.found]
  | recalled | settled =>
    cases hb
    simp [Event.isReport]
  | unlocated | tooDeep | broken | halted | closed | misread | lost | failed => cases hb
  | loop _ _ ih => simpa [Errand.found, Event.isReport] using ih hb
  | checked _ _ _ ih =>
    cases hb
    simpa [Errand.found, Event.isReport] using ih rfl
  | noted _ _ _ ih => simpa [Errand.found, Event.isReport] using ih hb
  | passed _ _ _ _ ih ih' =>
    have hv := ih rfl
    have hw := ih' hb
    simp only [Errand.found, Bool.false_or] at hv hw
    rw [hw, hv, List.any_append, Bool.or_assoc]
    rfl
  | here _ _ _ _ ih => simpa [Errand.found] using ih hb
  | elsewhere _ _ _ _ _ ih => simpa [Errand.found] using ih hb
  | next _ _ ih ih' =>
    have hv := ih rfl
    have hw := ih' hb
    simp only [Errand.found, Bool.false_or] at hv hw
    rw [hw, hv, List.any_append, Bool.or_assoc]
    rfl

/-- Only functions that were not visited before are begun. -/
theorem began_fresh (h : s.Runs holds n errand m es r) {d : Cursor} {id : DeclarationId}
    (hb : Event.began d id ∈ es) :
    DeclarationId.of d.node = .ok id ∧ m.standing id = .unvisited := by
  induction h with
  | nowhere | unlocated | known | recalled | emptied | settled | skipped | misread | unnamed | lost
  | unknown | done => simp at hb
  | loop _ _ ih | noted _ _ _ ih => exact ih (by simpa using hb)
  | here _ _ _ _ ih | elsewhere _ _ _ _ _ ih | halted _ _ ih | closed _ _ _ ih
  | failed _ ih => exact ih hb
  | tooDeep hid hu =>
    simp only [List.mem_singleton, Event.began.injEq] at hb
    obtain ⟨rfl, rfl⟩ := hb
    exact ⟨hid, hu⟩
  | @broken n m d' call id' es _ hid hu _ ih | @checked n m d' call id' es _ hid hu _ ih =>
    rcases List.mem_cons.mp hb with he | hm
    · cases he
      exact ⟨hid, hu⟩
    · obtain ⟨ho, hs⟩ := ih (by simpa using hm)
      have hne : id' ≠ id := by
        rintro rfl
        simp [Memo.standing_begin hu] at hs
      exact ⟨ho, by rwa [Memo.standing_begin_of_ne hne] at hs⟩
  | passed _ _ _ _ ih ih' | next _ _ ih ih' =>
    rcases List.mem_append.mp hb with hm | hm
    · exact ih hm
    · obtain ⟨ho, hs⟩ := ih' hm
      exact ⟨ho, Memo.unvisited_of_replay hs⟩

/-- Every function that is begun is among those that the errand may come to. -/
theorem began_met (h : s.Runs holds n errand m es r) (hw : errand.Within s holds met)
    {d : Cursor} {id : DeclarationId} (hb : Event.began d id ∈ es) : met d := by
  induction h with
  | nowhere | unlocated | known | recalled | emptied | settled | skipped | misread | unnamed | lost
  | unknown | done => simp at hb
  | loop hf _ ih => exact ih ((Errand.part_loop hf).within hw) (by simpa using hb)
  | tooDeep =>
    simp only [List.mem_singleton, Event.began.injEq] at hb
    exact hb.1 ▸ hw _ _ rfl .refl
  | broken hid _ _ ih | checked hid _ _ ih =>
    rcases List.mem_cons.mp hb with he | hm
    · cases he
      exact hw _ _ rfl .refl
    · exact ih (hw.function hid) (by simpa using hm)
  | noted _ _ _ ih => exact ih (Errand.part_tail.within hw) (by simpa using hb)
  | halted _ _ ih | closed _ _ _ ih => exact ih (Errand.part_head.within hw) hb
  | passed _ _ hc _ ih ih' =>
    rcases List.mem_append.mp hb with hm | hm
    · exact ih (Errand.part_head.within hw) hm
    · exact ih' ((Errand.part_children hc).within hw) hm
  | here hc hs hd _ ih => exact ih ((Errand.part_here hc hs hd).within hw) hb
  | elsewhere hc hs hd hsay _ ih => exact ih ((Errand.part_elsewhere hc hs hd hsay).within hw) hb
  | failed _ ih => exact ih (Errand.part_first.within hw) hb
  | next _ _ ih ih' =>
    rcases List.mem_append.mp hb with hm | hm
    · exact ih (Errand.part_first.within hw) hm
    · exact ih' (Errand.part_rest.within hw) hm

/-- A verdict is recorded for functions that were begun, and for the one whose body is walked. -/
theorem recorded_begun (h : s.Runs holds n errand m es r) {id : DeclarationId} {v : Bool}
    (hv : Event.recorded id v ∈ es) :
    (∃ d, Event.began d id ∈ es) ∨ errand.owner = some id ∧ r = .ok true ∧ v = true := by
  induction h with
  | nowhere | unlocated | known | recalled | tooDeep | emptied | skipped | misread | unnamed | lost
  | unknown | done => simp at hv
  | loop _ _ ih =>
    rcases ih (by simpa using hv) with ⟨d, hd⟩ | ⟨ho, _⟩
    · exact .inl ⟨d, List.mem_cons_of_mem _ hd⟩
    · cases ho
  | @broken n m d call id' es e hid hu _ ih =>
    rcases ih (by simpa using hv) with ⟨d, hd⟩ | ⟨_, hr, _⟩
    · exact .inl ⟨d, by simp [hd]⟩
    · cases hr
  | @checked n m d call id' es v' hid hu _ ih =>
    simp only [List.mem_cons, reduceCtorEq, false_or, List.mem_append] at hv
    rcases hv with hm | hm | hm
    · rcases ih hm with ⟨d, hd⟩ | ⟨ho, _⟩
      · exact .inl ⟨d, by simp [hd]⟩
      · -- The walk recorded its own function, which was begun just before.
        cases ho
        exact .inl ⟨d, by simp⟩
    · cases hm
      exact .inl ⟨d, by simp⟩
    · cases hm
  | settled _ hf =>
    simp only [List.mem_cons, reduceCtorEq, false_or, List.not_mem_nil, or_false,
      Event.recorded.injEq] at hv
    obtain ⟨rfl, rfl⟩ := hv
    exact .inr ⟨hf, rfl, rfl⟩
  | noted _ _ _ ih =>
    rcases ih (by simpa using hv) with ⟨d, hd⟩ | ho
    · exact .inl ⟨d, List.mem_cons_of_mem _ hd⟩
    · exact .inr ho
  | halted _ _ ih | closed _ _ _ ih =>
    rcases ih hv with hd | ⟨ho, _⟩
    · exact .inl hd
    · cases ho
  | passed _ _ _ _ ih ih' =>
    rcases List.mem_append.mp hv with hm | hm
    · rcases ih hm with ⟨d, hd⟩ | ⟨ho, _⟩
      · exact .inl ⟨d, List.mem_append_left _ hd⟩
      · cases ho
    · rcases ih' hm with ⟨d, hd⟩ | ho
      · exact .inl ⟨d, List.mem_append_right _ hd⟩
      · exact .inr ho
  | here _ _ _ _ ih | elsewhere _ _ _ _ _ ih | failed _ ih =>
    rcases ih hv with hd | ⟨ho, _⟩
    · exact .inl hd
    · cases ho
  | next _ _ ih ih' =>
    rcases List.mem_append.mp hv with hm | hm
    · rcases ih hm with ⟨d, hd⟩ | ⟨ho, _⟩
      · exact .inl ⟨d, List.mem_append_left _ hd⟩
      · cases ho
    · rcases ih' hm with ⟨d, hd⟩ | ⟨ho, _⟩
      · exact .inl ⟨d, List.mem_append_right _ hd⟩
      · cases ho

/-- A function that was visited before keeps its state, unless its own body is walked. -/
theorem frame (h : s.Runs holds n errand m es r) {id : DeclarationId}
    (hv : m.standing id ≠ .unvisited) (ho : errand.owner = some id → r ≠ .ok true) :
    (m.replay es).standing id = m.standing id := by
  have hbegan : ∀ d, Event.began d id ∉ es := fun d hd => hv (h.began_fresh hd).2
  apply Memo.replay_untouched hbegan
  intro v hm
  rcases h.recorded_begun hm with ⟨d, hd⟩ | ⟨hid, hr, _⟩
  · exact hbegan d hd
  · exact ho hid hr

theorem began_of_visited (h : s.Runs holds n errand m es r) {id : DeclarationId}
    (hv : (m.replay es).standing id ≠ .unvisited) (hu : m.standing id = .unvisited)
    (ho : errand.owner ≠ some id) : ∃ d, Event.began d id ∈ es := by
  by_cases hb : ∃ d, Event.began d id ∈ es
  · exact hb
  · have hbegan : ∀ d, Event.began d id ∉ es := fun d hd => hb ⟨d, hd⟩
    have hsame : (m.replay es).standing id = m.standing id := by
      apply Memo.replay_untouched hbegan
      intro v hm
      rcases h.recorded_begun hm with hd | ⟨hid, _⟩
      · exact hb hd
      · exact ho hid
    exact absurd (hsame.trans hu) hv

/-- An errand that ends well leaves nothing in progress that was not so before. -/
theorem inProgress_before (h : s.Runs holds n errand m es r) {b : Bool} (hb : r = .ok b)
    {id : DeclarationId} (hp : (m.replay es).standing id = .inProgress) :
    m.standing id = .inProgress := by
  induction h generalizing b with
  | nowhere | known | recalled | emptied | skipped | unnamed | unknown | done => exact hp
  | unlocated | tooDeep | broken | halted | closed | misread | lost | failed => cases hb
  | loop _ _ ih | noted _ _ _ ih | here _ _ _ _ ih | elsewhere _ _ _ _ _ ih => exact ih hb hp
  | @checked n m d call id' es v hid hu _ ih =>
    rw [Memo.replay_began, Memo.replay_walked, Memo.replay_append, Memo.replay_recorded,
      Memo.replay_nil, Memo.standing_record] at hp
    split at hp
    next => cases hp
    next hne =>
      have hs := ih rfl hp
      rwa [Memo.standing_begin_of_ne hne] at hs
  | @settled n m root body x rest found id' _ _ =>
    rw [Memo.replay_reported, Memo.replay_recorded, Memo.replay_nil, Memo.standing_record] at hp
    split at hp
    next => cases hp
    next => exact hp
  | passed _ _ _ _ ih ih' | next _ _ ih ih' =>
    rw [Memo.replay_append] at hp
    exact ih rfl (ih' hb hp)

/-- A true verdict is recorded only where a report was tried. -/
theorem reported_of_recorded (h : s.Runs holds n errand m es r) {id : DeclarationId}
    (hv : Event.recorded id true ∈ es) : es.any Event.isReport = true := by
  induction h with
  | nowhere | unlocated | known | recalled | tooDeep | emptied | skipped | misread | unnamed | lost
  | unknown | done => simp at hv
  | settled => simp [Event.isReport]
  | noted => simp [Event.isReport]
  | loop _ _ ih | broken _ _ _ ih => simpa [Event.isReport] using ih (by simpa using hv)
  | checked _ _ hw ih =>
    simp only [List.mem_cons, reduceCtorEq, false_or, List.mem_append] at hv
    rcases hv with hm | hm | hm
    · simpa [Event.isReport] using ih hm
    · cases hm
      simpa [Errand.found, Event.isReport] using hw.answer_eq rfl
    · cases hm
  | halted _ _ ih | closed _ _ _ ih | here _ _ _ _ ih | elsewhere _ _ _ _ _ ih | failed _ ih =>
    exact ih hv
  | passed _ _ _ _ ih ih' | next _ _ ih ih' =>
    rw [List.any_append, Bool.or_eq_true]
    rcases List.mem_append.mp hv with hm | hm
    · exact .inl (ih hm)
    · exact .inr (ih' hm)

end Runs

end LoopSearch

end NPlusOne
