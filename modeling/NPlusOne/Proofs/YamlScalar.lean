import Mathlib.Data.List.Basic
import NPlusOne.Proofs.TaskRun
import NPlusOne.Yaml.Block
import NPlusOne.Yaml.Scalar

namespace NPlusOne

namespace Yaml

/-- The visible characters of the basic alphabet, and the space. -/
def IsVisible (c : Char) : Prop :=
  ' ' ≤ c ∧ c ≤ '~'

instance (c : Char) : Decidable (IsVisible c) :=
  inferInstanceAs (Decidable (_ ∧ _))

namespace IsVisible

variable {c : Char}

theorem ne_of_not {d : Char} (h : IsVisible c) (hd : ¬ IsVisible d) : c ≠ d := by
  rintro rfl
  exact hd h

theorem isBreak (h : IsVisible c) : isBreak c = false := by
  simp [Yaml.isBreak, h.ne_of_not (d := '\n') (by decide), h.ne_of_not (d := '\u0085') (by decide),
    h.ne_of_not (d := '\u2028') (by decide), h.ne_of_not (d := '\u2029') (by decide)]

theorem ne_endMark (h : IsVisible c) : c ≠ endMark :=
  h.ne_of_not (by decide)

theorem endsLine (h : IsVisible c) : endsLine c = false := by
  simp [Yaml.endsLine, h.ne_endMark, h.isBreak]

theorem endsWord (h : IsVisible c) : endsWord c = decide (c = ' ') := by
  simp [Yaml.endsWord, h.endsLine, h.ne_of_not (d := '\t') (by decide)]

theorem endsWord_of_ne (h : IsVisible c) (hc : c ≠ ' ') : Yaml.endsWord c = false := by
  simp [h.endsWord, hc]

theorem runKind (h : IsVisible c) : RunKind.of c = if c = ' ' then .space else .word := by
  simp [RunKind.of, h.isBreak]

end IsVisible

namespace Input

variable {w t : List Char} {i l k : Nat}

theorem next_visible {c : Char} (h : IsVisible c) :
    (⟨c :: t, i, l, k⟩ : Input).next = ⟨t, i + 1, l, k + 1⟩ := by
  simp [next, h.isBreak, h.ne_of_not (d := '\ufeff') (by decide)]

theorem skip_append (hw : ∀ c ∈ w, IsVisible c) :
    (⟨w ++ t, i, l, k⟩ : Input).skip w.length = ⟨t, i + w.length, l, k + w.length⟩ := by
  induction w generalizing i k with
  | nil => rfl
  | cons c w ih =>
    rw [List.length_cons, skip, List.cons_append, next_visible (hw c List.mem_cons_self),
      ih fun d hd => hw d (List.mem_cons_of_mem c hd), Nat.add_assoc, Nat.add_assoc,
      Nat.add_comm 1]

theorem span_append {p : Char → Bool} (hw : ∀ c ∈ w, IsVisible c) (hp : ∀ c ∈ w, p c = true)
    (ht : ∀ c ∈ t.head?, p c = false) :
    (⟨w ++ t, i, l, k⟩ : Input).span p = (w, ⟨t, i + w.length, l, k + w.length⟩) := by
  have htake : (w ++ t).takeWhile p = w := by
    rw [List.takeWhile_append_of_pos hp]
    cases t with
    | nil => simp
    | cons c t => simp [ht c rfl]
  rw [span, htake, skip_append hw]

theorem peek_append {c : Char} (h : w.head? = some c) :
    (⟨w ++ t, i, l, k⟩ : Input).peek = c := by
  cases w with
  | nil => cases h
  | cons d w =>
    cases h
    rfl

end Input

/-- The indentation of a line. -/
abbrev spaces (n : Nat) : List Char :=
  List.replicate n ' '

theorem visible_of_mem_spaces {n : Nat} {c : Char} (h : c ∈ spaces n) : IsVisible c := by
  rw [List.eq_of_mem_replicate h]
  decide

/-- What stands behind the end of a line: the end of the document, or a sign that is neither blank
nor comment nor the separator of documents. -/
structure Starts (r : List Char) : Prop where
  visible : ∀ c ∈ r.head?, IsVisible c
  notSpace : r.head? ≠ some ' '
  notComment : r.head? ≠ some '#'
  notDashes : r.take 3 ≠ ['-', '-', '-']
  notDots : r.take 3 ≠ ['.', '.', '.']

/-- Stretches of one kind each, where neighbours are of different kinds. -/
inductive Alternates : List (RunKind × List Char) → Prop
  | nil : Alternates []
  | cons {kind : RunKind} {run : List Char} {rest : List (RunKind × List Char)} : run ≠ [] →
    (∀ c ∈ run, RunKind.of c = kind) → (∀ next ∈ rest.head?, next.1 ≠ kind) → Alternates rest →
    Alternates ((kind, run) :: rest)

theorem alternates_runs (text : List Char) : Alternates (runs text) := by
  induction text with
  | nil => exact .nil
  | cons c text ih =>
    rw [runs]
    split
    next => exact .cons (by simp) (by simp) (by simp) .nil
    next kind run more heq =>
      rw [heq] at ih
      cases ih with
      | cons hne hkind hnext hmore =>
        split
        next hc =>
          refine .cons (by simp) (fun d hd => ?_) hnext hmore
          rcases List.mem_cons.mp hd with rfl | hd
          · exact hc.symm
          · exact hkind d hd
        next hc =>
          refine .cons (by simp) (by simp) ?_ (.cons hne hkind hnext hmore)
          simpa using hc

theorem flatMap_runs (text : List Char) : (runs text).flatMap Prod.snd = text := by
  induction text with
  | nil => rfl
  | cons c text ih =>
    rw [runs]
    split
    next heq => simp_all
    next kind run more heq =>
      rw [heq] at ih
      split <;> simpa using ih

/-- The stretches of a text as they are written, the words changed by `put`. A single space inside
the text may have become a line break. -/
inductive Wrapped (hang : Nat) (put : List Char → List Char) :
    List (RunKind × List Char) → List Char → Prop
  | nil : Wrapped hang put [] []
  | word {run out : List Char} {rest : List (RunKind × List Char)} : Wrapped hang put rest out →
    Wrapped hang put ((.word, run) :: rest) (put run ++ out)
  | space {run out : List Char} {rest : List (RunKind × List Char)} : Wrapped hang put rest out →
    Wrapped hang put ((.space, run) :: rest) (run ++ out)
  | fold {out : List Char} {rest : List (RunKind × List Char)} : rest ≠ [] →
    Wrapped hang put rest out →
    Wrapped hang put ((.space, [' ']) :: rest) ('\n' :: (spaces hang ++ out))

/-- A word in single quotation marks, where each quotation mark is written twice. -/
def doubled (run : List Char) : List Char :=
  run.flatMap fun c => if c = '\'' then ['\'', '\''] else [c]

section Quoted

/-- From here on, up to a closing single quotation mark, a text is read. -/
def Unquotes (i : Input) (text : List Char) (j : Input) : Prop :=
  ∀ n, i.rest.length < n → quotedText false n i = .ok (text, j)

variable {text t : List Char} {i l k n : Nat} {j : Input}

theorem unquotes_close (h : t.head? ≠ some '\'') :
    Unquotes ⟨'\'' :: t, i, l, k⟩ [] ⟨t, i + 1, l, k + 1⟩ := by
  intro n hn
  obtain ⟨n, rfl⟩ := Nat.exists_eq_add_one_of_ne_zero (Nat.ne_zero_of_lt hn)
  have hpeek : (⟨'\'' :: t, i, l, k⟩ : Input).peekAt 1 ≠ '\'' := by
    cases t with
    | nil => simp [Input.peekAt, endMark]
    | cons c t => simpa [Input.peekAt] using h
  have hnext : (⟨'\'' :: t, i, l, k⟩ : Input).next = ⟨t, i + 1, l, k + 1⟩ :=
    Input.next_visible (by decide)
  rw [quotedText, ← hnext]
  simp [Input.peek, hpeek, endMark]

theorem Unquotes.quote (h : Unquotes ⟨t, i + 2, l, k + 2⟩ text j) :
    Unquotes ⟨'\'' :: '\'' :: t, i, l, k⟩ ('\'' :: text) j := by
  intro n hn
  obtain ⟨n, rfl⟩ := Nat.exists_eq_add_one_of_ne_zero (Nat.ne_zero_of_lt hn)
  have hskip : (⟨'\'' :: '\'' :: t, i, l, k⟩ : Input).skip 2 = ⟨t, i + 2, l, k + 2⟩ :=
    Input.skip_append (w := ['\'', '\'']) (List.forall_iff_forall_mem.mp (by decide))
  have hrest := h n (by simp at hn ⊢; omega)
  rw [quotedText]
  rw [← hskip] at hrest
  exact except_bind_eq_ok.mpr ⟨_, hrest, rfl⟩

theorem Unquotes.char {c : Char} (h : Unquotes ⟨t, i + 1, l, k + 1⟩ text j) (hc : IsVisible c)
    (hs : c ≠ ' ') (hq : c ≠ '\'') : Unquotes ⟨c :: t, i, l, k⟩ (c :: text) j := by
  intro n hn
  obtain ⟨n, rfl⟩ := Nat.exists_eq_add_one_of_ne_zero (Nat.ne_zero_of_lt hn)
  have hpeek : (⟨c :: t, i, l, k⟩ : Input).peek = c := rfl
  have hrest := h n (by simpa using hn)
  rw [← Input.next_visible hc] at hrest
  simp only [quotedText, hpeek, if_neg hc.ne_endMark, hq, decide_false, Bool.and_false,
    Bool.false_and, hc.endsWord_of_ne hs, Bool.false_eq_true, if_false]
  exact except_bind_eq_ok.mpr ⟨_, hrest, rfl⟩

theorem Unquotes.blanks {part : List Char} {c : Char} {j' : Input} (h : Unquotes j text j')
    (hc : endsWord c = true) (he : c ≠ endMark) (hlen : j.rest.length ≤ t.length)
    (hb : ∀ n, quotedBlanks (n + 1) ⟨c :: t, i, l, k⟩ = .ok (part, j)) :
    Unquotes ⟨c :: t, i, l, k⟩ (part ++ text) j' := by
  intro n hn
  obtain ⟨n, rfl⟩ : ∃ m, n = m + 2 := ⟨n - 2, by simp at hn; omega⟩
  have hpeek : (⟨c :: t, i, l, k⟩ : Input).peek = c := rfl
  have hq : c ≠ '\'' := by
    rintro rfl
    revert hc
    decide
  have hrest := h (n + 1) (by simp at hn; omega)
  simp only [quotedText, hpeek, if_neg he, hq, decide_false, Bool.and_false, Bool.false_and, hc,
    Bool.false_eq_true, if_false, if_true]
  exact except_bind_eq_ok.mpr ⟨_, hb n, except_bind_eq_ok.mpr ⟨_, hrest, rfl⟩⟩

/-- A word is read back without its doubled quotation marks. -/
theorem Unquotes.word {run : List Char}
    (h : Unquotes ⟨t, i + (doubled run).length, l, k + (doubled run).length⟩ text j)
    (hv : ∀ c ∈ run, IsVisible c) (hs : ' ' ∉ run) :
    Unquotes ⟨doubled run ++ t, i, l, k⟩ (run ++ text) j := by
  induction run generalizing i k with
  | nil => exact h
  | cons c run ih =>
    have hc := hv c List.mem_cons_self
    have hsc : c ≠ ' ' := fun heq => hs (heq ▸ List.mem_cons_self)
    have hrest := fun h => @ih (i + (doubled [c]).length) (k + (doubled [c]).length) h
      (fun d hd => hv d (List.mem_cons_of_mem c hd)) fun hm => hs (List.mem_cons_of_mem c hm)
    have hsplit : doubled (c :: run) = doubled [c] ++ doubled run := by simp [doubled]
    rw [hsplit, List.length_append, ← Nat.add_assoc, ← Nat.add_assoc] at h
    rw [hsplit, List.append_assoc]
    by_cases hq : c = '\''
    · subst hq
      exact (hrest h).quote
    · have hone : doubled [c] = [c] := by simp [doubled, hq]
      rw [hone] at h hrest ⊢
      exact (hrest h).char hc hsc hq

theorem not_blank_of_not_endsWord (ht : ∀ c ∈ t.head?, endsWord c = false) :
    ∀ c ∈ t.head?, (c = ' ' || c = '\t') = false := by
  intro c hc
  have hend := ht c hc
  rw [endsWord, Bool.or_eq_false_iff] at hend
  exact hend.1

theorem isBreak_peek (ht : ∀ c ∈ t.head?, endsWord c = false) :
    isBreak (⟨t, i, l, k⟩ : Input).peek = false := by
  cases t with
  | nil => rfl
  | cons c t =>
    have hend := ht c rfl
    simp only [endsWord, endsLine, Bool.or_eq_false_iff] at hend
    exact hend.2.2

theorem quotedBlanks_of_span {i j : Input} {blanks : List Char}
    (h : i.span (fun c => c = ' ' || c = '\t') = (blanks, j)) (hj : isBreak j.peek = false) :
    quotedBlanks n i = .ok (blanks, j) := by
  simp only [quotedBlanks, h, hj, Bool.false_eq_true, if_false]

theorem quotedBlanks_of_break {i j j' : Input} {blanks breaks : List Char}
    (h : i.span (fun c => c = ' ' || c = '\t') = (blanks, j)) (hj : isBreak j.peek = true)
    (hb : quotedBreaks n j.lineBreak.2 = .ok (breaks, j')) :
    quotedBlanks n i = .ok (foldBreak j.lineBreak.1 breaks, j') := by
  simp only [quotedBlanks, h, hj, if_true]
  exact except_bind_eq_ok.mpr ⟨_, hb, rfl⟩

theorem quotedBreaks_of_span {i j : Input} {blanks : List Char} (hs : i.atSeparator = false)
    (h : i.span (fun c => c = ' ' || c = '\t') = (blanks, j)) (hj : isBreak j.peek = false) :
    quotedBreaks (n + 1) i = .ok ([], j) := by
  simp only [quotedBreaks, hs, h, hj, Bool.false_eq_true, if_false]

theorem Unquotes.spaces {run : List Char}
    (h : Unquotes ⟨t, i + run.length, l, k + run.length⟩ text j) (hne : run ≠ [])
    (hs : ∀ c ∈ run, c = ' ') (ht : ∀ c ∈ t.head?, endsWord c = false) :
    Unquotes ⟨run ++ t, i, l, k⟩ (run ++ text) j := by
  obtain ⟨c, run, rfl⟩ := List.exists_cons_of_ne_nil hne
  obtain rfl := hs c List.mem_cons_self
  have hblank : ∀ d ∈ ' ' :: run, (d = ' ' || d = '\t') = true := by
    intro d hd
    simp [hs d hd]
  have htail := not_blank_of_not_endsWord ht
  refine h.blanks rfl (by decide) (by simp) fun n => ?_
  have hspan : (⟨' ' :: (run ++ t), i, l, k⟩ : Input).span (fun d => d = ' ' || d = '\t') =
      (' ' :: run, ⟨t, i + (' ' :: run).length, l, k + (' ' :: run).length⟩) :=
    Input.span_append (fun d hd => hs d hd ▸ by decide) hblank htail
  exact quotedBlanks_of_span hspan (isBreak_peek ht)

/-- A line break is read back as the space that it was. -/
theorem Unquotes.fold {hang : Nat} (h : Unquotes ⟨t, i + 1 + hang, l + 1, hang⟩ text j)
    (hh : 0 < hang) (ht : ∀ c ∈ t.head?, endsWord c = false) :
    Unquotes ⟨'\n' :: (Yaml.spaces hang ++ t), i, l, k⟩ (' ' :: text) j := by
  have htail := not_blank_of_not_endsWord ht
  have hspan : (⟨Yaml.spaces hang ++ t, i + 1, l + 1, 0⟩ : Input).span
      (fun d => d = ' ' || d = '\t') =
        (Yaml.spaces hang, ⟨t, i + 1 + hang, l + 1, hang⟩) := by
    have hspan := @Input.span_append (Yaml.spaces hang) t (i + 1) (l + 1) 0 _
      (fun _ => visible_of_mem_spaces) (fun d hd => by simp [List.eq_of_mem_replicate hd]) htail
    simpa using hspan
  have hsep : (⟨Yaml.spaces hang ++ t, i + 1, l + 1, 0⟩ : Input).atSeparator = false := by
    obtain ⟨m, rfl⟩ := Nat.exists_eq_add_one_of_ne_zero (Nat.ne_zero_of_lt hh)
    simp [Input.atSeparator, Input.atMarks, List.replicate_succ]
  have hnone : (⟨'\n' :: (Yaml.spaces hang ++ t), i, l, k⟩ : Input).span
      (fun d => d = ' ' || d = '\t') = ([], ⟨'\n' :: (Yaml.spaces hang ++ t), i, l, k⟩) := rfl
  change Unquotes _ ([' '] ++ text) j
  refine h.blanks rfl (by decide) (by simp) fun n => ?_
  exact quotedBlanks_of_break hnone rfl (quotedBreaks_of_span hsep hspan (isBreak_peek ht))

theorem head?_doubled {c : Char} {run : List Char} (h : run.head? = some c) :
    (doubled run).head? = some c := by
  cases run with
  | nil => cases h
  | cons d run =>
    cases h
    by_cases hq : c = '\'' <;> simp [doubled, hq]

/-- What follows a stretch of spaces is no blank. -/
theorem Wrapped.head_of_ne_space {hang : Nat} {rs : List (RunKind × List Char)} {out : List Char}
    (hw : Wrapped hang doubled rs out) (ha : Alternates rs)
    (hv : ∀ r ∈ rs, ∀ c ∈ r.2, IsVisible c) (hs : ∀ next ∈ rs.head?, next.1 ≠ .space) :
    ∀ c ∈ (out ++ '\'' :: t).head?, endsWord c = false := by
  cases hw with
  | nil => simp [endsWord, endsLine, isBreak, endMark]
  | space | fold => exact absurd rfl (hs _ rfl)
  | @word run out rest hw =>
    cases ha with
    | cons hne hkind _ _ =>
      obtain ⟨c, run', rfl⟩ := List.exists_cons_of_ne_nil hne
      have hc := hv _ List.mem_cons_self c List.mem_cons_self
      have hhead : (doubled (c :: run') ++ out ++ '\'' :: t).head? = some c := by
        have hhead : (doubled (c :: run')).head? = some c := head?_doubled rfl
        rw [List.append_assoc, List.head?_append, hhead]
        rfl
      have hcs : c ≠ ' ' := by
        rintro rfl
        cases hkind ' ' List.mem_cons_self
      intro d hd
      cases hhead.symm.trans hd
      exact hc.endsWord_of_ne hcs

/-- A text in single quotation marks is read back, however it was wrapped. -/
theorem unquotes_of_wrapped {hang : Nat} {rs : List (RunKind × List Char)} {out : List Char}
    (hw : Wrapped hang doubled rs out) (ha : Alternates rs)
    (hv : ∀ r ∈ rs, ∀ c ∈ r.2, IsVisible c) (hh : 0 < hang) (ht : t.head? ≠ some '\'')
    (i l k : Nat) : ∃ i' l' k',
      Unquotes ⟨out ++ '\'' :: t, i, l, k⟩ (rs.flatMap Prod.snd) ⟨t, i', l', k'⟩ ∧ l ≤ l' ∧
        ('\n' ∉ out → l' = l ∧ i' = i + out.length + 1 ∧ k' = k + out.length + 1) := by
  induction hw generalizing i l k with
  | nil => exact ⟨_, _, _, unquotes_close ht, Nat.le_refl l, fun _ => ⟨rfl, rfl, rfl⟩⟩
  | @word run out rest hw ih =>
    cases ha with
    | cons hne hkind hnext hrest =>
      have hv' := fun r hr => hv r (List.mem_cons_of_mem _ hr)
      obtain ⟨i', l', k', h, hl, hsame⟩ := ih hrest hv' (i + (doubled run).length) l
        (k + (doubled run).length)
      have hs : ' ' ∉ run := fun hm => by cases hkind ' ' hm
      rw [List.append_assoc]
      refine ⟨i', l', k', h.word (hv _ List.mem_cons_self) hs, hl, fun hno => ?_⟩
      obtain ⟨rfl, rfl, rfl⟩ := hsame fun hm => hno (List.mem_append_right _ hm)
      rw [List.length_append]
      exact ⟨rfl, by omega, by omega⟩
  | @space run out rest hw ih =>
    cases ha with
    | cons hne hkind hnext hrest =>
      have hv' := fun r hr => hv r (List.mem_cons_of_mem _ hr)
      obtain ⟨i', l', k', h, hl, hsame⟩ := ih hrest hv' (i + run.length) l (k + run.length)
      have hs : ∀ c ∈ run, c = ' ' := by
        intro c hc
        have hkind := hkind c hc
        rw [(hv _ List.mem_cons_self c hc).runKind] at hkind
        split at hkind
        next heq => exact heq
        next => cases hkind
      rw [List.append_assoc]
      refine ⟨i', l', k', h.spaces hne hs (hw.head_of_ne_space hrest hv' hnext), hl, fun hno => ?_⟩
      obtain ⟨rfl, rfl, rfl⟩ := hsame fun hm => hno (List.mem_append_right _ hm)
      rw [List.length_append]
      exact ⟨rfl, by omega, by omega⟩
  | @fold out rest hne hw ih =>
    cases ha with
    | cons _ _ hnext hrest =>
      have hv' := fun r hr => hv r (List.mem_cons_of_mem _ hr)
      obtain ⟨i', l', k', h, hl, hsame⟩ := ih hrest hv' (i + 1 + hang) (l + 1) hang
      rw [List.cons_append, List.append_assoc]
      refine ⟨i', l', k', h.fold hh (hw.head_of_ne_space hrest hv' hnext), by omega, fun hno => ?_⟩
      exact absurd List.mem_cons_self hno

end Quoted

section Plain

/-- A word that can stand in a plain text, with no sign of the layout in it. -/
structure PlainWord (w : List Char) : Prop where
  nonempty : w ≠ []
  visible : ∀ c ∈ w, IsVisible c
  whole : ' ' ∉ w
  notComment : w.head? ≠ some '#'
  notColon : w.getLast? ≠ some ':'

/-- Plain words with spaces between them. -/
inductive Phrase : List (RunKind × List Char) → Prop
  | last {w : List Char} : PlainWord w → Phrase [(.word, w)]
  | more {w s : List Char} {rest : List (RunKind × List Char)} : PlainWord w → s ≠ [] →
    (∀ c ∈ s, c = ' ') → Phrase rest → Phrase ((.word, w) :: (.space, s) :: rest)

/-- From here on a plain text is read; the flag tells that a line ended last of all. -/
def PlainReads (indent : Int) (i : Input) (text : List Char) (newLine : Bool) (j : Input) : Prop :=
  ∀ n blanks before, i.rest.length < n →
    plainText false indent n blanks before i = (blanks ++ text, newLine, j)

variable {w t text : List Char} {i l k n : Nat} {j : Input} {indent : Int} {newLine : Bool}

/-- A word is read up to where the plain text may end. -/
theorem plainWord_append (hv : ∀ c ∈ w, IsVisible c) (hs : ' ' ∉ w) (hc : w.getLast? ≠ some ':')
    (ht : ∀ c ∈ t.head?, endsPlain false c (t.tail.headD endMark) = true) :
    plainWord false (w ++ t) = w := by
  induction w with
  | nil =>
    cases t with
    | nil => rfl
    | cons c t => simpa [plainWord] using ht c rfl
  | cons c w ih =>
    have hcv := hv c List.mem_cons_self
    have hcs : c ≠ ' ' := fun heq => hs (heq ▸ List.mem_cons_self)
    have hgo : endsPlain false c ((w ++ t).headD endMark) = false := by
      cases w with
      | nil =>
        have hcolon : c ≠ ':' := by simpa using hc
        simp [endsPlain, hcv.endsWord_of_ne hcs, hcolon]
      | cons d w =>
        have hd := hv d (by simp)
        have hds : d ≠ ' ' := fun heq => hs (by simp [heq])
        simp [endsPlain, hcv.endsWord_of_ne hcs, hd.endsWord_of_ne hds]
    have hrest : plainWord false (w ++ t) = w := by
      cases w with
      | nil => exact ih (by simp) (by simp) (by simp)
      | cons d w =>
        exact ih (fun e he => hv e (List.mem_cons_of_mem c he))
          (fun hm => hs (List.mem_cons_of_mem c hm)) (by simpa using hc)
    rw [List.cons_append, plainWord, hgo, hrest]
    rfl

theorem plainBlanks_of_span {i j : Input} {blanks : List Char}
    (h : i.span (· = ' ') = (blanks, j)) (hj : isBreak j.peek = false) :
    plainBlanks i = (blanks, false, j) := by
  simp only [plainBlanks, h, hj, Bool.false_eq_true, if_false]

theorem atSeparator_spaces {m : Nat} (hm : 0 < m) :
    (⟨spaces m ++ t, i, l, k⟩ : Input).atSeparator = false := by
  obtain ⟨m, rfl⟩ := Nat.exists_eq_add_one_of_ne_zero (Nat.ne_zero_of_lt hm)
  simp [Input.atSeparator, Input.atMarks, spaces, List.replicate_succ]

theorem plainBreaks_spaces {m : Nat} (ht : ∀ c ∈ t.head?, endsWord c = false) (hn : m < n) :
    plainBreaks n ⟨spaces m ++ t, i, l, k⟩ = (some [], ⟨t, i + m, l, k + m⟩) := by
  obtain ⟨n, rfl⟩ := Nat.exists_eq_add_one_of_ne_zero (Nat.ne_zero_of_lt hn)
  induction m generalizing n i k with
  | zero =>
    have hspace : (⟨t, i, l, k⟩ : Input).peek ≠ ' ' := by
      cases t with
      | nil => simp [Input.peek, endMark]
      | cons c t =>
        rintro rfl
        cases ht ' ' rfl
    simp only [spaces, List.replicate_zero, List.nil_append, plainBreaks, hspace, if_false,
      isBreak_peek ht, Bool.false_eq_true, Nat.add_zero]
  | succ m ih =>
    have hnext : (⟨' ' :: (spaces m ++ t), i, l, k⟩ : Input).next =
      ⟨spaces m ++ t, i + 1, l, k + 1⟩ := Input.next_visible (by decide)
    obtain ⟨n, rfl⟩ : ∃ p, n = p + 1 := ⟨n - 1, by omega⟩
    have hpeek : (⟨' ' :: (spaces m ++ t), i, l, k⟩ : Input).peek = ' ' := rfl
    rw [spaces, List.replicate_succ, List.cons_append, plainBreaks, if_pos hpeek, hnext,
      ih n (by omega), Nat.add_assoc, Nat.add_assoc, Nat.add_comm 1]

theorem plainBlanks_newLine {m : Nat} (ht : ∀ c ∈ t.head?, endsWord c = false)
    (hs : (⟨spaces m ++ t, i + 1, l + 1, 0⟩ : Input).atSeparator = false) :
    plainBlanks ⟨'\n' :: (spaces m ++ t), i, l, k⟩ =
      ([' '], true, ⟨t, i + 1 + m, l + 1, m⟩) := by
  have hspan : (⟨'\n' :: (spaces m ++ t), i, l, k⟩ : Input).span (· = ' ') =
    ([], ⟨'\n' :: (spaces m ++ t), i, l, k⟩) := rfl
  have hbreaks : plainBreaks ((spaces m ++ t).length + 1) ⟨spaces m ++ t, i + 1, l + 1, 0⟩ =
      (some [], ⟨t, i + 1 + m, l + 1, 0 + m⟩) :=
    plainBreaks_spaces ht (by simp only [spaces, List.length_append, List.length_replicate]; omega)
  have hpeek : isBreak (⟨'\n' :: (spaces m ++ t), i, l, k⟩ : Input).peek = true := rfl
  have hline : (⟨'\n' :: (spaces m ++ t), i, l, k⟩ : Input).lineBreak =
    (['\n'], ⟨spaces m ++ t, i + 1, l + 1, 0⟩) := rfl
  simp only [plainBlanks, hspan, hpeek, if_true, hline, hs, Bool.false_eq_true, if_false, hbreaks,
    Nat.zero_add]
  rfl

theorem PlainWord.head_not_endsWord (hw : PlainWord w) :
    ∀ c ∈ (w ++ t).head?, endsWord c = false ∧ c ≠ '#' := by
  obtain ⟨c, w, rfl⟩ := List.exists_cons_of_ne_nil hw.nonempty
  intro d hd
  cases hd
  have hs : c ≠ ' ' := fun heq => hw.whole (heq ▸ List.mem_cons_self)
  exact ⟨(hw.visible c List.mem_cons_self).endsWord_of_ne hs, fun heq => hw.notComment (heq ▸ rfl)⟩

theorem PlainWord.peek (hw : PlainWord w) : (⟨w ++ t, i, l, k⟩ : Input).peek ≠ '#' := by
  obtain ⟨c, w, rfl⟩ := List.exists_cons_of_ne_nil hw.nonempty
  simpa [Input.peek] using hw.notComment

variable {next : List Char}

/-- The text ends behind the word. -/
theorem PlainWord.stop (hw : PlainWord w)
    (ht : ∀ c ∈ t.head?, endsPlain false c (t.tail.headD endMark) = true)
    (hb : plainBlanks ⟨t, i + w.length, l, k + w.length⟩ = (next, newLine, j))
    (hstop : next = [] ∨ (j.column : Int) < indent) :
    PlainReads indent ⟨w ++ t, i, l, k⟩ w newLine j := by
  intro n blanks before hn
  obtain ⟨n, rfl⟩ := Nat.exists_eq_add_one_of_ne_zero (Nat.ne_zero_of_lt hn)
  have hword := plainWord_append hw.visible hw.whole hw.notColon ht
  have hends : (next.isEmpty || j.peek = '#' || (!false && (j.column : Int) < indent)) = true := by
    rcases hstop with rfl | hcol
    · simp
    · simp [hcol]
  have hsome : w.isEmpty = false := by simpa using hw.nonempty
  simp only [plainText, hword, hw.peek, hsome, decide_false, Bool.or_self,
    Bool.false_eq_true, if_false, Input.skip_append hw.visible, hb, hends, if_true]

/-- The text goes on behind the word. -/
theorem PlainWord.go {newLine' : Bool} {j' : Input} (hw : PlainWord w)
    (ht : ∀ c ∈ t.head?, endsPlain false c (t.tail.headD endMark) = true)
    (hb : plainBlanks ⟨t, i + w.length, l, k + w.length⟩ = (next, newLine, j))
    (hne : next ≠ []) (hj : j.peek ≠ '#') (hcol : indent ≤ j.column)
    (hlen : j.rest.length ≤ t.length) (h : PlainReads indent j text newLine' j') :
    PlainReads indent ⟨w ++ t, i, l, k⟩ (w ++ (next ++ text)) newLine' j' := by
  intro n blanks before hn
  obtain ⟨n, rfl⟩ := Nat.exists_eq_add_one_of_ne_zero (Nat.ne_zero_of_lt hn)
  have hword := plainWord_append hw.visible hw.whole hw.notColon ht
  have hpos : 0 < w.length := List.length_pos_iff.mpr hw.nonempty
  have hends : (next.isEmpty || j.peek = '#' || (!false && (j.column : Int) < indent)) = false := by
    simp [hne, hj, hcol]
  have hrest := h n next newLine (by simp at hn; omega)
  have hsome : w.isEmpty = false := by simpa using hw.nonempty
  simp only [plainText, hword, hw.peek, hsome, decide_false, Bool.or_self,
    Bool.false_eq_true, if_false, Input.skip_append hw.visible, hb, hends, hrest, List.append_assoc]

theorem Phrase.exists_word {hang : Nat} {rs : List (RunKind × List Char)} {out : List Char}
    (hp : Phrase rs) (hw : Wrapped hang id rs out) : ∃ w out', PlainWord w ∧ out = w ++ out' := by
  cases hp with
  | last hword | more hword =>
    cases hw
    exact ⟨_, _, hword, rfl⟩

/-- Behind the blanks a word begins, which is no comment. -/
theorem Phrase.begins {hang : Nat} {rs : List (RunKind × List Char)} {out : List Char}
    (hp : Phrase rs) (hw : Wrapped hang id rs out) (tail : List Char) :
    (∀ c ∈ (out ++ tail).head?, endsWord c = false) ∧
      ∀ i l k, (⟨out ++ tail, i, l, k⟩ : Input).peek ≠ '#' := by
  obtain ⟨w, out', hword, rfl⟩ := hp.exists_word hw
  rw [List.append_assoc]
  exact ⟨fun c hc => (hword.head_not_endsWord c hc).1, fun _ _ _ => hword.peek⟩

/-- A plain text is read back, however it was wrapped. The words are read one by one; `last` is
the place behind the last one. -/
theorem Phrase.plainReads {hang : Nat} {rs : List (RunKind × List Char)} {out tail : List Char}
    {last : Nat → Nat → Nat → Input} (hp : Phrase rs) (hw : Wrapped hang id rs out) (hh : 0 < hang)
    (hhang : indent ≤ hang)
    (hend : ∀ w, PlainWord w → ∀ i l k, PlainReads indent ⟨w ++ tail, i, l, k⟩ w newLine
      (last (i + w.length) l (k + w.length))) (i l k : Nat) (hk : indent ≤ k + 1) :
    ∃ i' l' k', PlainReads indent ⟨out ++ tail, i, l, k⟩ (rs.flatMap Prod.snd) newLine
      (last i' l' k') ∧ l ≤ l' ∧
        ('\n' ∉ out → l' = l ∧ i' = i + out.length ∧ k' = k + out.length) := by
  induction hp generalizing out i l k with
  | @last w hword =>
    cases hw with
    | word hw =>
      cases hw
      refine ⟨_, _, _, by simpa using hend w hword i l k, Nat.le_refl l, fun _ => ?_⟩
      simp
  | @more w s rest hword hne hs hrest ih =>
    cases hw with
    | word hw =>
      have hpos : 0 < w.length := List.length_pos_iff.mpr hword.nonempty
      have hsome : 0 < s.length := List.length_pos_iff.mpr hne
      cases hw with
      | @space _ out _ hw =>
        obtain ⟨i', l', k', h, hl, hsame⟩ := ih hw (i + w.length + s.length) l
          (k + w.length + s.length) (by push_cast; omega)
        obtain ⟨hnext, hpeek⟩ := hrest.begins hw tail
        have hstops : ∀ c ∈ (s ++ (out ++ tail)).head?,
            endsPlain false c ((s ++ (out ++ tail)).tail.headD endMark) = true := by
          obtain ⟨c, s, rfl⟩ := List.exists_cons_of_ne_nil hne
          intro d hd
          cases hd
          rw [hs c List.mem_cons_self]
          rfl
        have hspan := @Input.span_append s (out ++ tail) (i + w.length) l (k + w.length)
          (· = ' ') (fun c hc => hs c hc ▸ by decide) (fun c hc => by simp [hs c hc])
          (fun c hc => (Bool.or_eq_false_iff.mp (not_blank_of_not_endsWord hnext c hc)).1)
        have hb := plainBlanks_of_span hspan (isBreak_peek hnext)
        refine ⟨i', l', k', ?_, hl, fun hno => ?_⟩
        · simpa using hword.go hstops hb hne (hpeek _ _ _) (by push_cast; omega) (by simp) h
        · obtain ⟨rfl, rfl, rfl⟩ := hsame fun hm => hno (by simp [hm])
          refine ⟨rfl, ?_, ?_⟩ <;>
          · simp only [id, List.length_append]
            omega
      | @fold out _ _ hw =>
        obtain ⟨i', l', k', h, hl, hsame⟩ := ih hw (i + w.length + 1 + hang) (l + 1) hang (by omega)
        obtain ⟨hnext, hpeek⟩ := hrest.begins hw tail
        have hsep := atSeparator_spaces (t := out ++ tail) (i := i + w.length + 1)
          (l := l + 1) (k := 0) hh
        have hb :=
          @plainBlanks_newLine (out ++ tail) (i + w.length) l (k + w.length) hang hnext hsep
        have hstops : ∀ c ∈ ('\n' :: (spaces hang ++ (out ++ tail))).head?, endsPlain false c
            (('\n' :: (spaces hang ++ (out ++ tail))).tail.headD endMark) = true := by
          intro d hd
          cases hd
          rfl
        refine ⟨i', l', k', ?_, by omega, fun hno => absurd (by simp) hno⟩
        simpa using hword.go hstops hb (by simp) (hpeek _ _ _) hhang (by simp; omega) h

theorem Starts.not_endsWord {r : List Char} (h : Starts r) : ∀ c ∈ r.head?, endsWord c = false := by
  intro c hc
  exact (h.visible c hc).endsWord_of_ne fun heq => h.notSpace (heq ▸ hc)

theorem Starts.atSeparator {r : List Char} (h : Starts r) (m : Nat) :
    (⟨spaces m ++ r, i, l, k⟩ : Input).atSeparator = false := by
  cases m with
  | zero => simp [Input.atSeparator, Input.atMarks, h.notDashes, h.notDots]
  | succ m => exact atSeparator_spaces (Nat.succ_pos m)

/-- The last word of a plain text that ends with its line. The next line is indented less. -/
theorem PlainWord.lineEnd {r : List Char} {m : Nat} (hw : PlainWord w) (hr : Starts r)
    (hm : (m : Int) < indent) (i l k : Nat) :
    PlainReads indent ⟨w ++ '\n' :: (spaces m ++ r), i, l, k⟩ w true
      ⟨r, i + w.length + 1 + m, l + 1, m⟩ := by
  refine hw.stop ?_ (plainBlanks_newLine hr.not_endsWord (hr.atSeparator m)) (.inr hm)
  intro c hc
  cases hc
  rfl

/-- The last word of a plain text that a colon follows. -/
theorem PlainWord.colon (hw : PlainWord w) (ht : endsWord (t.headD endMark) = true) (i l k : Nat) :
    PlainReads indent ⟨w ++ ':' :: t, i, l, k⟩ w false
      ⟨':' :: t, i + w.length, l, k + w.length⟩ := by
  refine hw.stop ?_ (plainBlanks_of_span rfl rfl) (.inl rfl)
  intro c hc
  cases hc
  rw [List.tail_cons, endsPlain, ht]
  rfl

end Plain

end Yaml

end NPlusOne
