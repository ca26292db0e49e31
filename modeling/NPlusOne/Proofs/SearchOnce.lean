import Mathlib.Data.List.Forall2
import NPlusOne.Proofs.SearchMemo
import NPlusOne.Proofs.SearchSteps

namespace NPlusOne

/-- What becomes of functions and bodies, in the order in which it happens. -/
inductive Note where
  /-- A traversal is begun, but no body is walked. -/
  | begun (id : DeclarationId)
  | recorded (id : DeclarationId) (verdict : Bool)
  | loop (body : Cursor)
  /-- The traversal of a function is begun, and its body is walked. -/
  | function (body : Cursor) (id : DeclarationId)

namespace Note

def onMemo (m : Memo) : Note → Memo
  | begun id => (m.begin id).2
  | recorded id verdict => m.record id verdict
  | loop _ => m
  | function _ id => (m.begin id).2

/-- The function that is begun or recorded. -/
def subject? : Note → Option DeclarationId
  | begun id => some id
  | recorded id _ => some id
  | loop _ => none
  | function _ id => some id

def root? : Note → Option Cursor
  | loop body => some body
  | function body _ => some body
  | _ => none

def loop? : Note → Option Cursor
  | loop body => some body
  | _ => none

def functionId? : Note → Option DeclarationId
  | function _ id => some id
  | _ => none

end Note

namespace Memo

/-- The memo after the notes. -/
def retrace (m : Memo) (notes : List Note) : Memo :=
  notes.foldl Note.onMemo m

@[simp] theorem retrace_nil (m : Memo) : m.retrace [] = m := rfl

@[simp] theorem retrace_cons (m : Memo) (note : Note) (notes : List Note) :
    m.retrace (note :: notes) = (note.onMemo m).retrace notes := rfl

@[simp] theorem retrace_append (m : Memo) (notes others : List Note) :
    m.retrace (notes ++ others) = (m.retrace notes).retrace others := by
  simp [retrace, List.foldl_append]

/-- Every function whose body is walked has the id that is begun, unvisited until then. -/
def Admits : Memo → List Note → Prop
  | _, [] => True
  | m, note :: notes =>
    (∀ body id, note = .function body id →
      DeclarationId.of body.node = .ok id ∧ m.standing id = .unvisited) ∧
    Admits (note.onMemo m) notes

theorem admits_append {m : Memo} {notes others : List Note} :
    m.Admits (notes ++ others) ↔ m.Admits notes ∧ (m.retrace notes).Admits others := by
  induction notes generalizing m with
  | nil => simp [Admits]
  | cons note notes ih => simp [Admits, ih, and_assoc]

theorem begin_visited (m : Memo) (id : DeclarationId) :
    (m.begin id).2.standing id ≠ .unvisited := by
  by_cases h : m.standing id = .unvisited
  · simp [standing_begin h]
  · rwa [standing_begin_of_visited h]

theorem onMemo_visited_of_subject {m : Memo} {note : Note} {id : DeclarationId}
    (h : note.subject? = some id) : (note.onMemo m).standing id ≠ .unvisited := by
  cases note with
  | begun other | function _ other =>
    cases h
    exact begin_visited m id
  | recorded other verdict =>
    cases h
    simp [Note.onMemo, standing_record]
  | loop body => cases h

theorem onMemo_visited {m : Memo} {id : DeclarationId} (h : m.standing id ≠ .unvisited)
    (note : Note) : (note.onMemo m).standing id ≠ .unvisited := by
  cases note with
  | begun other | function _ other => rwa [Note.onMemo, standing_begin_of_visited h]
  | recorded other verdict =>
    rw [Note.onMemo, standing_record]
    split
    next => simp
    next => exact h
  | loop body => exact h

theorem retrace_visited {m : Memo} {id : DeclarationId} (h : m.standing id ≠ .unvisited)
    (notes : List Note) : (m.retrace notes).standing id ≠ .unvisited := by
  induction notes generalizing m with
  | nil => exact h
  | cons note notes ih => exact ih (onMemo_visited h note)

theorem retrace_visited_of_subject {m : Memo} {notes : List Note} {note : Note} {id : DeclarationId}
    (hn : note ∈ notes) (hs : note.subject? = some id) :
    (m.retrace notes).standing id ≠ .unvisited := by
  obtain ⟨past, future, rfl⟩ := List.append_of_mem hn
  rw [retrace_append, retrace_cons]
  exact retrace_visited (onMemo_visited_of_subject hs) future

/-- A body that is walked is that of a function which nothing before has begun or recorded. -/
theorem Admits.fresh {m : Memo} {past future : List Note} {body : Cursor} {id : DeclarationId}
    (h : m.Admits (past ++ .function body id :: future)) :
    DeclarationId.of body.node = .ok id ∧ m.standing id = .unvisited ∧
      ∀ note ∈ past, note.subject? ≠ some id := by
  obtain ⟨hid, hu⟩ := (admits_append.mp h).2.1 body id rfl
  refine ⟨hid, ?_, fun note hn hs => retrace_visited_of_subject hn hs hu⟩
  by_contra hv
  exact retrace_visited hv past hu

theorem Admits.nodup {m : Memo} {notes : List Note} (h : m.Admits notes) :
    (notes.filterMap Note.functionId?).Nodup := by
  induction notes generalizing m with
  | nil => simp
  | cons note notes ih =>
    have hrest := ih h.2
    cases note with
    | begun | recorded | loop => exact hrest
    | function body id =>
      refine List.nodup_cons.mpr ⟨fun hmem => ?_, hrest⟩
      obtain ⟨note, hn, hid⟩ := List.mem_filterMap.mp hmem
      obtain ⟨past, future, rfl⟩ := List.append_of_mem hn
      cases note with
      | begun | recorded | loop => cases hid
      | function other _ =>
        cases hid
        have hfresh : m.Admits ((.function body id :: past) ++ .function other id :: future) := h
        exact hfresh.fresh.2.2 _ List.mem_cons_self rfl

end Memo

/-- The loops that an errand walks. -/
def Errand.loops : Errand → List Cursor
  | .loop c => if c.node.file?.isSome then [c] else []
  | _ => []

/-- The notes tell the same of the memo and of the walked bodies as the events. -/
structure Note.Retell (es : List Event) (notes : List Note) : Prop where
  memo : ∀ m : Memo, m.retrace notes = m.replay es
  walked : notes.filterMap Note.root? = es.filterMap Event.walked?

namespace Note.Retell

variable {es fs : List Event} {notes others : List Note}

theorem nil : Retell [] [] :=
  ⟨fun _ => rfl, rfl⟩

theorem append (h : Retell es notes) (h' : Retell fs others) :
    Retell (es ++ fs) (notes ++ others) :=
  ⟨fun m => by rw [Memo.retrace_append, Memo.replay_append, h.memo, h'.memo],
    by rw [List.filterMap_append, List.filterMap_append, h.walked, h'.walked]⟩

theorem loop (c : Cursor) : Retell [.walked c] [.loop c] :=
  ⟨fun _ => rfl, rfl⟩

theorem function (d : Cursor) (id : DeclarationId) :
    Retell [.began d id, .walked d] [.function d id] :=
  ⟨fun _ => rfl, rfl⟩

theorem recorded (id : DeclarationId) (v : Bool) : Retell [.recorded id v] [.recorded id v] :=
  ⟨fun _ => rfl, rfl⟩

theorem reported (target : Option Node) (about : Cursor) : Retell [.reported target about] [] :=
  ⟨fun _ => rfl, rfl⟩

end Note.Retell

namespace LoopSearch

variable {ρ : Type} {s : LoopSearch ρ} {holds : ρ → Prop} {n : Nat} {errand : Errand} {m : Memo}
  {es : List Event} {r : Except Failure Bool}

/-- An errand walks a function only right after it has begun it, and a loop only if it is one. -/
theorem Runs.admitted (h : s.Runs holds n errand m es r) :
    ∃ notes, Note.Retell es notes ∧ m.Admits notes ∧
      notes.filterMap Note.loop? = errand.loops := by
  induction h with
  | nowhere hf => exact ⟨[], .nil, trivial, by simp [Errand.loops, hf]⟩
  | unlocated | known | emptied | skipped | misread | unnamed | lost | unknown | done =>
    exact ⟨[], .nil, trivial, rfl⟩
  | recalled => exact ⟨[], .reported _ _, trivial, rfl⟩
  | @loop n m c file es r hf _ ih =>
    obtain ⟨notes, hn, ha, hl⟩ := ih
    refine ⟨.loop c :: notes, (Note.Retell.loop c).append hn, ⟨by simp, ha⟩, ?_⟩
    simpa [Note.loop?, Errand.loops, hf] using hl
  | @tooDeep m d call id =>
    exact ⟨[.begun id], ⟨fun _ => rfl, rfl⟩, ⟨by simp, trivial⟩, rfl⟩
  | @broken n m d call id es e hid hu _ ih =>
    obtain ⟨notes, hn, ha, hl⟩ := ih
    refine ⟨.function d id :: notes, (Note.Retell.function d id).append hn, ⟨?_, ha⟩, hl⟩
    rintro _ _ ⟨⟩
    exact ⟨hid, hu⟩
  | @checked n m d call id es v hid hu _ ih =>
    obtain ⟨notes, hn, ha, hl⟩ := ih
    refine ⟨.function d id :: (notes ++ [.recorded id v]),
      (Note.Retell.function d id).append (hn.append (.recorded id v)), ⟨?_, ?_⟩, ?_⟩
    · rintro _ _ ⟨⟩
      exact ⟨hid, hu⟩
    · exact Memo.admits_append.mpr ⟨ha, by simp, trivial⟩
    · rw [List.filterMap_cons_none rfl, List.filterMap_append, hl]
      rfl
  | @settled n m root body x rest found id =>
    exact ⟨[.recorded id true], (Note.Retell.reported _ _).append (.recorded id true),
      ⟨by simp, trivial⟩, rfl⟩
  | noted _ _ _ ih =>
    obtain ⟨notes, hn, ha, hl⟩ := ih
    exact ⟨notes, (Note.Retell.reported _ _).append hn, ha, hl⟩
  | halted _ _ ih | closed _ _ _ ih | here _ _ _ _ ih | elsewhere _ _ _ _ _ ih | failed _ ih =>
    exact ih
  | passed _ _ _ _ ih ih' | next _ _ ih ih' =>
    obtain ⟨notes, hn, ha, hl⟩ := ih
    obtain ⟨others, hn', ha', hl'⟩ := ih'
    refine ⟨notes ++ others, hn.append hn', Memo.admits_append.mpr ⟨ha, by rwa [hn.memo]⟩, ?_⟩
    rw [List.filterMap_append, hl, hl']
    rfl

end LoopSearch

/-- What can be done with a search and its memo. -/
inductive Move where
  | search (step : Step)
  | begin (id : DeclarationId)
  | record (id : DeclarationId) (verdict : Bool)
  /-- A question to the memo, which changes nothing. -/
  | look (id : DeclarationId)

namespace Move

/-- The notes that can be taken of a move: which loops it walks, and all that it does to the memo
when it goes there directly. -/
def Leaves : Move → List Note → Prop
  | search step, notes => notes.filterMap Note.loop? = step.errand.loops
  | begin id, notes => notes = [.begun id]
  | record id verdict, notes => notes = [.recorded id verdict]
  | look _, notes => notes = []

end Move

namespace LoopSearch

variable {ρ : Type}

/-- The second state is the first one after the notes. -/
structure Tallies (st : WalkState ρ) (notes : List Note) (st' : WalkState ρ) : Prop where
  memo : st'.memo = st.memo.retrace notes
  walked : st'.walked = st.walked ++ notes.filterMap Note.root?

theorem Tallies.trans {st st' st'' : WalkState ρ} {notes others : List Note}
    (h : Tallies st notes st') (h' : Tallies st' others st'') : Tallies st (notes ++ others) st'' :=
  ⟨by rw [h'.memo, h.memo, Memo.retrace_append],
    by rw [h'.walked, h.walked, List.filterMap_append, List.append_assoc]⟩

variable [HasLog ρ]

/-- The state after a move, whether the move fails or not. -/
def move (s : LoopSearch ρ) (st : WalkState ρ) : Move → WalkState ρ
  | .search step => ((s.perform step).run st).2
  | .begin id =>
    if (st.memo.begin id).1 then
      HasLog.append ⟨.debug, .memo, s!"Begin traversal: {id.text}"⟩
        { st with memo := (st.memo.begin id).2 }
    else st
  | .record id verdict => { st with memo := st.memo.record id verdict }
  | .look _ => st

def moveAll (s : LoopSearch ρ) (moves : List Move) (st : WalkState ρ) : WalkState ρ :=
  moves.foldl s.move st

theorem move_noted (s : LoopSearch ρ) (st : WalkState ρ) (move : Move) :
    ∃ notes, move.Leaves notes ∧ Tallies st notes (s.move st move) ∧ st.memo.Admits notes := by
  cases move with
  | search step =>
    have hk : s.Keeps fun _ => True := ⟨fun _ _ _ => trivial, fun _ _ _ => trivial⟩
    obtain ⟨es, hr, hf⟩ := tells_perform hk step st trivial
    obtain ⟨notes, hn, ha, hl⟩ := hr.admitted
    exact ⟨notes, hl, ⟨by rw [hn.memo]; exact hf.memo, by rw [hn.walked]; exact hf.walked⟩, ha⟩
  | begin id =>
    refine ⟨[.begun id], rfl, ?_, by simp [Memo.Admits]⟩
    by_cases hu : st.memo.standing id = .unvisited
    · simp only [move, (Memo.begin_fst st.memo id).mpr hu, ↓reduceIte]
      exact ⟨rfl, by simp [HasLog.append, Note.root?]⟩
    · simp only [move, Memo.begin_of_visited hu, Bool.false_eq_true, ↓reduceIte]
      exact ⟨by simp [Note.onMemo, Memo.begin_of_visited hu], by simp [Note.root?]⟩
  | record id verdict =>
    exact ⟨[.recorded id verdict], rfl, ⟨rfl, by simp [move, Note.root?]⟩, by simp [Memo.Admits]⟩
  | look id => exact ⟨[], rfl, ⟨rfl, by simp [move]⟩, trivial⟩

theorem moveAll_noted (s : LoopSearch ρ) (moves : List Move) (st : WalkState ρ) :
    ∃ told : List (List Note), List.Forall₂ Move.Leaves moves told ∧
      (∀ k, Tallies st (told.take k).flatten (s.moveAll (moves.take k) st)) ∧
      st.memo.Admits told.flatten := by
  induction moves generalizing st with
  | nil => exact ⟨[], .nil, fun k => ⟨by simp [moveAll], by simp [moveAll]⟩, trivial⟩
  | cons move moves ih =>
    obtain ⟨notes, hl, ht, ha⟩ := s.move_noted st move
    obtain ⟨told, hls, hts, has⟩ := ih (s.move st move)
    rw [ht.memo] at has
    refine ⟨notes :: told, .cons hl hls, fun k => ?_, Memo.admits_append.mpr ⟨ha, has⟩⟩
    cases k with
    | zero => exact ⟨rfl, by simp [moveAll]⟩
    | succ k => exact ht.trans (hts k)

/-- Whatever is done with a search and its memo, failing checks among it: no two of the function
roots that are walked have the same id, and the id of each of them was neither begun nor recorded
before. -/
theorem moveAll_walks_once (s : LoopSearch ρ) (moves : List Move) (st : WalkState ρ) :
    ∃ told : List (List Note), List.Forall₂ Move.Leaves moves told ∧
      (∀ k, Tallies st (told.take k).flatten (s.moveAll (moves.take k) st)) ∧
      (told.flatten.filterMap Note.functionId?).Nodup ∧
      ∀ past body id future, told.flatten = past ++ .function body id :: future →
        DeclarationId.of body.node = .ok id ∧ st.memo.standing id = .unvisited ∧
          ∀ note ∈ past, note.subject? ≠ some id := by
  obtain ⟨told, hleaves, htallies, hadmits⟩ := s.moveAll_noted moves st
  refine ⟨told, hleaves, htallies, hadmits.nodup, ?_⟩
  intro past body id future heq
  rw [heq] at hadmits
  exact hadmits.fresh

end LoopSearch

end NPlusOne
