import Mathlib.Data.List.Induction
import NPlusOne.Proofs.YamlScalar

namespace NPlusOne

namespace Yaml

namespace Page

variable {p : Page} {n : Nat}

theorem toList_put (p : Page) (part : List Char) :
    (p.put part).text.toList = p.text.toList ++ part := by
  simp [put]

/-- A new line with its indentation. -/
theorem indent_newLine (h : p.afterIndent = false ∨ n < p.column) :
    (p.indent n).text.toList = p.text.toList ++ '\n' :: spaces n ∧ (p.indent n).column = n ∧
      (p.indent n).afterBlank = true ∧ (p.indent n).afterIndent = true := by
  have hbreak : (!p.afterIndent || n < p.column || (p.column = n && !p.afterBlank)) = true := by
    rcases h with h | h <;> simp [h]
  simp only [indent, hbreak, if_true]
  split
  next => simp [put, breakWith]
  next hn =>
    have hzero : n = 0 := by simpa [breakWith] using hn
    simp [breakWith, hzero]

/-- The next column of the same line. -/
theorem indent_sameLine (h : p.afterIndent = true) (hn : p.column < n) :
    (p.indent n).text.toList = p.text.toList ++ spaces (n - p.column) ∧ (p.indent n).column = n ∧
      (p.indent n).afterBlank = true ∧ (p.indent n).afterIndent = true := by
  have hstay : (!p.afterIndent || n < p.column || (p.column = n && !p.afterBlank)) = false := by
    simp [h, Nat.le_of_lt hn, Nat.ne_of_lt hn]
  simp only [indent, hstay, Bool.false_eq_true, if_false, hn, if_true]
  simp [put, h, Nat.add_sub_cancel' (Nat.le_of_lt hn)]

end Page

section Signs

variable {first : Bool} {before c : Char} {u v : List Char}

theorem hasSign_tail (h : hasSign first before (c :: v) = false) : hasSign false c v = false := by
  rw [hasSign, Bool.or_eq_false_iff] at h
  exact h.2

theorem hasSign_append (h : hasSign first before (u ++ c :: v) = false) :
    hasSign false c v = false := by
  induction u generalizing first before with
  | nil => exact hasSign_tail h
  | cons d u ih => exact ih (hasSign_tail h)

/-- The sign itself is none, whatever stands before it. -/
theorem exists_isSignAt (h : hasSign first before (u ++ c :: v) = false)
    (hv : ∀ d ∈ v, IsVisible d) :
    ∃ first' before', isSignAt first' before' c (v.headD endMark) = false ∧
      (u = [] → first' = first ∧ before' = before) := by
  induction u generalizing first before with
  | nil =>
    rw [List.nil_append, hasSign, Bool.or_eq_false_iff] at h
    have hreturn : v.headD endMark ≠ '\r' := by
      cases v with
      | nil => decide
      | cons d v => exact (hv d List.mem_cons_self).ne_of_not (by decide)
    rw [if_neg hreturn] at h
    exact ⟨first, before, h.1, fun _ => ⟨rfl, rfl⟩⟩
  | cons d u ih =>
    obtain ⟨first', before', hs, _⟩ := ih (hasSign_tail h)
    exact ⟨first', before', hs, fun hnil => by cases hnil⟩

theorem ne_colon_of_isSignAt {after : Char} (h : isSignAt first before c after = false)
    (ha : endsWord after = true) : c ≠ ':' := by
  rintro rfl
  cases first <;> simp [isSignAt, ha] at h

theorem ne_comment_of_isSignAt {after : Char} (h : isSignAt first before c after = false)
    (hb : first = true ∨ before = ' ') : c ≠ '#' := by
  rintro rfl
  cases first with
  | true => simp [isSignAt] at h
  | false =>
    obtain rfl := hb.resolve_left (by simp)
    simp [isSignAt, endsWord] at h

end Signs

section Words

variable {kind : RunKind} {run : List Char} {rest : List (RunKind × List Char)}

theorem Alternates.kind_eq (ha : Alternates ((kind, run) :: rest)) (hv : ∀ c ∈ run, IsVisible c) :
    kind = .word ∧ ' ' ∉ run ∨ kind = .space ∧ ∀ c ∈ run, c = ' ' := by
  cases ha with
  | cons hne hkind =>
    obtain ⟨c, run', rfl⟩ := List.exists_cons_of_ne_nil hne
    have hof : ∀ d ∈ c :: run', kind = if d = ' ' then .space else .word := fun d hd =>
      (hkind d hd).symm.trans (hv d hd).runKind
    by_cases hc : c = ' '
    · refine .inr ⟨by simpa [hc] using hof c List.mem_cons_self, fun d hd => ?_⟩
      by_contra hds
      have hword := hof d hd
      have hspace := hof c List.mem_cons_self
      rw [if_neg hds] at hword
      rw [if_pos hc, hword] at hspace
      cases hspace
    · refine .inl ⟨by simpa [hc] using hof c List.mem_cons_self, fun hm => ?_⟩
      have hword := hof c List.mem_cons_self
      have hspace := hof ' ' hm
      rw [if_neg hc] at hword
      rw [if_pos rfl, hword] at hspace
      cases hspace

/-- A word without signs, at the beginning of a text or between spaces, or at the end of it. -/
theorem plainWord_of_hasSign {first : Bool} {before : Char} {v : List Char} (hne : run ≠ [])
    (hv : ∀ c ∈ run ++ v, IsVisible c) (hw : ' ' ∉ run) (hb : first = true ∨ before = ' ')
    (hend : ∀ c ∈ v.head?, c = ' ') (h : hasSign first before (run ++ v) = false) :
    PlainWord run where
  nonempty := hne
  visible c hc := hv c (List.mem_append_left _ hc)
  whole := hw
  notComment := by
    obtain ⟨c, run, rfl⟩ := List.exists_cons_of_ne_nil hne
    obtain ⟨first', before', hs, hsame⟩ := exists_isSignAt (u := []) h fun d hd =>
      hv d (List.mem_cons_of_mem c hd)
    obtain ⟨rfl, rfl⟩ := hsame rfl
    simpa using ne_comment_of_isSignAt hs hb
  notColon := by
    obtain ⟨u, c, rfl⟩ := (List.eq_nil_or_concat' run).resolve_left hne
    rw [List.append_assoc] at h
    obtain ⟨first', before', hs, _⟩ := exists_isSignAt h fun d hd =>
      hv d (List.mem_append_right _ hd)
    have hafter : endsWord (v.headD endMark) = true := by
      cases v with
      | nil => rfl
      | cons d v =>
        rw [hend d rfl]
        rfl
    simpa using ne_colon_of_isSignAt hs hafter

/-- Runs of words and spaces without a sign form a phrase, if a word stands at both ends. -/
theorem phrase_of_alternates {rs : List (RunKind × List Char)} {first : Bool} {before : Char}
    (ha : Alternates rs) (hv : ∀ r ∈ rs, ∀ c ∈ r.2, IsVisible c) (hne : rs ≠ [])
    (hfirst : ∀ r ∈ rs.head?, r.1 ≠ .space) (hlast : ∀ r ∈ rs.getLast?, r.1 ≠ .space)
    (hb : first = true ∨ before = ' ')
    (hs : hasSign first before (rs.flatMap Prod.snd) = false) : Phrase rs := by
  -- Words and spaces alternate, so a word and the spaces behind it are taken together.
  induction rs using List.twoStepInduction generalizing first before with
  | nil => exact absurd rfl hne
  | singleton r =>
    obtain ⟨kind, run⟩ := r
    have hkind := (ha.kind_eq (hv _ List.mem_cons_self)).resolve_right fun h =>
      hfirst _ rfl h.1
    obtain ⟨rfl, hw⟩ := hkind
    cases ha with
    | cons hrun =>
      refine .last (plainWord_of_hasSign hrun (v := []) ?_ hw hb (by simp) hs)
      simpa using hv _ List.mem_cons_self
  | cons_cons r r' rest ih =>
    obtain ⟨kind, run⟩ := r
    obtain ⟨kind', run'⟩ := r'
    have hkind := (ha.kind_eq (hv _ List.mem_cons_self)).resolve_right fun h =>
      hfirst _ rfl h.1
    obtain ⟨rfl, hw⟩ := hkind
    cases ha with
    | cons hrun _ hnext ha' =>
      have hv' : ∀ c ∈ run', IsVisible c := hv (kind', run') (by simp)
      obtain ⟨rfl, hspaces⟩ := (ha'.kind_eq hv').resolve_left fun h => hnext _ rfl h.1
      cases ha' with
      | cons hrun' _ hnext' ha'' =>
        have hrest : rest ≠ [] := by
          rintro rfl
          exact hlast _ rfl rfl
        obtain ⟨u, c, rfl⟩ := (List.eq_nil_or_concat' run').resolve_left hrun'
        obtain rfl := hspaces c (by simp)
        have hlast' : ∀ r ∈ rest.getLast?, r.1 ≠ .space := by
          intro r hr
          refine hlast r ?_
          obtain ⟨x, xs, rfl⟩ := List.exists_cons_of_ne_nil hrest
          simpa using hr
        have hs' : hasSign false ' ' (rest.flatMap Prod.snd) = false := by
          have hsplit : hasSign first before ((run ++ u) ++ ' ' :: rest.flatMap Prod.snd) =
              false := by
            simpa using hs
          exact hasSign_append hsplit
        refine .more ?_ hrun' hspaces (ih ha'' (fun r hr => hv r (by simp [hr])) hrest hnext' hlast'
          (.inr rfl) hs')
        refine plainWord_of_hasSign hrun (v := (u ++ [' ']) ++ rest.flatMap Prod.snd) ?_ hw hb ?_
          (by simpa using hs)
        · intro d hd
          simp only [List.mem_append, List.mem_flatMap] at hd
          rcases hd with hd | (hd | hd) | ⟨r, hr, hd⟩
          · exact hv _ List.mem_cons_self d hd
          · exact hv' d (by simp [hd])
          · exact hv' d (by simp [hd])
          · exact hv r (by simp [hr]) d hd
        · intro d hd
          have hhead : ((u ++ [' ']) ++ rest.flatMap Prod.snd).head? = (u ++ [' ']).head? := by
            cases u <;> rfl
          rw [hhead] at hd
          exact hspaces d (List.mem_of_head? hd)

end Words

section Written

variable {hang : Nat} {rs rest : List (RunKind × List Char)} {run : List Char} {fold : Bool}

theorem eq_space_of_length {s : List Char} (hs : ∀ c ∈ s, c = ' ') (h : s.length = 1) :
    s = [' '] := by
  obtain ⟨c, rfl⟩ := List.length_eq_one_iff.mp h
  rw [hs c List.mem_cons_self]

theorem writePlainRuns_word (p : Page) : writePlainRuns hang fold ((.word, run) :: rest) p =
    writePlainRuns hang fold rest (p.put run) := by
  rw [writePlainRuns]
  rfl

theorem writePlainRuns_space (hs : ∀ c ∈ run, c = ' ') (p : Page) :
    writePlainRuns hang fold ((.space, run) :: rest) p =
        writePlainRuns hang fold rest (p.put run) ∨
      run = [' '] ∧ fold = true ∧ writePlainRuns hang fold ((.space, run) :: rest) p =
        writePlainRuns hang fold rest (p.continued hang) := by
  rw [writePlainRuns]
  split
  next h =>
    simp only [Bool.and_eq_true, decide_eq_true_eq] at h
    exact .inr ⟨eq_space_of_length hs h.1.1.2, h.2, rfl⟩
  next => exact .inl rfl

theorem Phrase.ne_nil (h : Phrase rs) : rs ≠ [] := by
  cases h <;> simp

theorem Page.toList_continued {p : Page} (hp : p.afterIndent = false) :
    (p.continued hang).text.toList = p.text.toList ++ '\n' :: spaces hang :=
  (Page.indent_newLine (.inl hp)).1

theorem Phrase.written (h : Phrase rs) (p : Page) (hp : p.afterIndent = false) :
    ∃ out, Wrapped hang id rs out ∧
      (writePlainRuns hang fold rs p).text.toList = p.text.toList ++ out ∧
      (writePlainRuns hang fold rs p).afterIndent = false ∧
      (fold = false → out = rs.flatMap Prod.snd) := by
  induction h generalizing p with
  | @last w hw =>
    refine ⟨id w ++ [], .word .nil, ?_, hp, fun _ => by simp⟩
    rw [writePlainRuns_word, writePlainRuns, Page.toList_put, id, List.append_nil]
  | @more w s rest hw hne hs hrest ih =>
    rw [writePlainRuns_word]
    have hput : (p.put w).afterIndent = false := hp
    rcases @writePlainRuns_space hang rest s fold hs (p.put w) with heq | ⟨rfl, hf, heq⟩
    · obtain ⟨out, hwrap, htext, hi, hsame⟩ := ih ((p.put w).put s) hp
      refine ⟨id w ++ (s ++ out), .word (.space hwrap), ?_, heq ▸ hi, fun hf => ?_⟩
      · rw [heq, htext, Page.toList_put, Page.toList_put]
        simp
      · rw [hsame hf]
        simp
    · obtain ⟨out, hwrap, htext, hi, _⟩ := ih ((p.put w).continued hang) rfl
      refine ⟨id w ++ '\n' :: (spaces hang ++ out), .word (.fold hrest.ne_nil hwrap), ?_, heq ▸ hi,
        fun hno => ?_⟩
      · rw [heq, htext, Page.toList_continued hput, Page.toList_put]
        simp
      · rw [hf] at hno
        cases hno

theorem writeSingleRuns_word (first : Bool) (p : Page) :
    writeSingleRuns hang fold first ((.word, run) :: rest) p =
      writeSingleRuns hang fold false rest (p.put (doubled run)) := by
  rw [writeSingleRuns]
  rfl

theorem writeSingleRuns_space (hs : ∀ c ∈ run, c = ' ') (first : Bool) (p : Page) :
    writeSingleRuns hang fold first ((.space, run) :: rest) p =
        writeSingleRuns hang fold false rest (p.put run) ∨
      run = [' '] ∧ fold = true ∧ Page.width < p.column ∧ rest ≠ [] ∧
        writeSingleRuns hang fold first ((.space, run) :: rest) p =
          writeSingleRuns hang fold false rest (p.indent hang) := by
  rw [writeSingleRuns]
  split
  next h =>
    simp only [Bool.and_eq_true, decide_eq_true_eq, Bool.not_eq_true', List.isEmpty_eq_false_iff]
      at h
    exact .inr ⟨eq_space_of_length hs h.1.1.1.1, h.1.1.2, h.1.1.1.2, h.2, rfl⟩
  next => exact .inl rfl

theorem Alternates.written (ha : Alternates rs) (hv : ∀ r ∈ rs, ∀ c ∈ r.2, IsVisible c)
    (hh : hang ≤ Page.width) (first : Bool) (p : Page) :
    ∃ out, Wrapped hang doubled rs out ∧
      (writeSingleRuns hang fold first rs p).text.toList = p.text.toList ++ out ∧
      (fold = false → '\n' ∉ out) := by
  induction ha generalizing first p with
  | nil => exact ⟨[], .nil, by simp [writeSingleRuns], by simp⟩
  | @cons kind run rest hne hkind hnext ha ih =>
    have hrun := hv (kind, run) List.mem_cons_self
    have hv' := fun r hr => hv r (List.mem_cons_of_mem _ hr)
    have hline : '\n' ∉ run := fun hm => absurd (hrun _ hm) (by decide)
    rcases (Alternates.cons hne hkind hnext ha).kind_eq hrun with ⟨rfl, _⟩ | ⟨rfl, hs⟩
    · obtain ⟨out, hwrap, htext, hno⟩ := ih hv' false (p.put (doubled run))
      refine ⟨doubled run ++ out, .word hwrap, ?_, fun hf => ?_⟩
      · rw [writeSingleRuns_word, htext, Page.toList_put, List.append_assoc]
      · have hdoubled : '\n' ∉ doubled run := by
          intro hm
          obtain ⟨c, hc, hm⟩ := List.mem_flatMap.mp hm
          split at hm
          next => simp at hm
          next => exact hline (List.mem_singleton.mp hm ▸ hc)
        simp [hdoubled, hno hf]
    · rcases @writeSingleRuns_space hang rest run fold hs first p with
        heq | ⟨rfl, hf, hwide, hrest, heq⟩
      · obtain ⟨out, hwrap, htext, hno⟩ := ih hv' false (p.put run)
        refine ⟨run ++ out, .space hwrap, ?_, fun hf => ?_⟩
        · rw [heq, htext, Page.toList_put, List.append_assoc]
        · simp [hline, hno hf]
      · obtain ⟨out, hwrap, htext, _⟩ := ih hv' false (p.indent hang)
        have hindent := (Page.indent_newLine (p := p) (n := hang)
          (.inr (Nat.lt_of_le_of_lt hh hwide))).1
        refine ⟨'\n' :: (spaces hang ++ out), .fold hrest hwrap, ?_, fun hno => ?_⟩
        · rw [heq, htext, hindent]
          simp
        · rw [hf] at hno
          cases hno

theorem length_doubled_le (run : List Char) : (doubled run).length ≤ 2 * run.length := by
  induction run with
  | nil => simp [doubled]
  | cons c run ih =>
    have hsplit : doubled (c :: run) = doubled [c] ++ doubled run := by simp [doubled]
    have hone : (doubled [c]).length ≤ 2 := by
      by_cases hc : c = '\'' <;> simp [doubled, hc]
    rw [hsplit, List.length_append, List.length_cons]
    omega

theorem Wrapped.length_le {put : List Char → List Char} {out : List Char}
    (h : Wrapped hang put rs out) (hput : ∀ run, (put run).length ≤ 2 * run.length)
    (hno : '\n' ∉ out) : out.length ≤ 2 * (rs.flatMap Prod.snd).length := by
  induction h with
  | nil => simp
  | @word run out rest _ ih =>
    have hrest := ih fun hm => hno (List.mem_append_right _ hm)
    have hrun := hput run
    simp only [List.flatMap_cons, List.length_append]
    omega
  | @space run out rest _ ih =>
    have hrest := ih fun hm => hno (List.mem_append_right _ hm)
    simp only [List.flatMap_cons, List.length_append]
    omega
  | fold => exact absurd List.mem_cons_self hno

/-- A blank goes before what is written, unless there is one. -/
def Page.lead (p : Page) : List Char :=
  if p.afterBlank then [] else [' ']

variable {text : List Char}

theorem Phrase.writePlain (h : Phrase (runs text)) (p : Page) :
    ∃ out, Wrapped hang id (runs text) out ∧
      (writePlain hang fold text p).text.toList = p.text.toList ++ (p.lead ++ out) ∧
      (writePlain hang fold text p).afterIndent = false ∧ (fold = false → out = text) := by
  have hne : text.isEmpty = false := by
    rw [List.isEmpty_eq_false_iff]
    rintro rfl
    exact h.ne_nil rfl
  have hwrite : Yaml.writePlain hang fold text p = writePlainRuns hang fold (runs text)
      { p.put p.lead with afterBlank := false, afterIndent := false } := by
    rw [Yaml.writePlain, hne, if_neg (by simp)]
    cases hb : p.afterBlank <;> simp [Page.lead, hb, Page.put]
  obtain ⟨out, hwrap, htext, hi, hsame⟩ := @Phrase.written hang (runs text) fold h
    { p.put p.lead with afterBlank := false, afterIndent := false } rfl
  rw [hwrite]
  refine ⟨out, hwrap, ?_, hi, fun hf => (hsame hf).trans (flatMap_runs text)⟩
  rw [htext, Page.toList_put, List.append_assoc]

theorem visible_runs (hv : ∀ c ∈ text, IsVisible c) :
    ∀ r ∈ runs text, ∀ c ∈ r.2, IsVisible c := by
  intro r hr c hc
  refine hv c ?_
  rw [← flatMap_runs text]
  exact List.mem_flatMap.mpr ⟨r, hr, hc⟩

theorem exists_writeSingle (hv : ∀ c ∈ text, IsVisible c) (hh : hang ≤ Page.width) (p : Page) :
    ∃ out, Wrapped hang doubled (runs text) out ∧ (writeSingle hang fold text p).text.toList =
        p.text.toList ++ (p.lead ++ '\'' :: (out ++ ['\''])) ∧
      (writeSingle hang fold text p).afterIndent = false ∧ (fold = false → '\n' ∉ out) := by
  obtain ⟨out, hwrap, htext, hno⟩ := @Alternates.written hang (runs text) fold
    (alternates_runs text) (visible_runs hv) hh true (p.mark '\'' false false)
  refine ⟨out, hwrap, ?_, rfl, hno⟩
  have hmark : (p.mark '\'' false false).text.toList = p.text.toList ++ (p.lead ++ ['\'']) := by
    cases hb : p.afterBlank <;> simp [Page.mark, Page.lead, hb, Page.put]
  rw [writeSingle, Page.closeMark, Page.toList_put, htext, hmark]
  simp

end Written

section Style

variable {text : List Char}

theorem IsVisible.isClear {c : Char} (h : IsVisible c) : isClear c = true := by
  have hlow : 32 ≤ c.toNat := h.1
  have hhigh : c.toNat ≤ 126 := h.2
  have hcode : Text.code c = c.toNat := by
    have hbase : ¬ Text.surrogateBase ≤ c.toNat := by
      rw [Text.surrogateBase]
      omega
    have hno : Text.surrogate? c = none := by simp [Text.surrogate?, hbase]
    rw [Text.code, hno]
    rfl
  simp [Yaml.isClear, hcode, hlow, hhigh]

theorem hasPair_eq_false {p q : Char → Bool}
    (h : (∀ c ∈ text, p c = false) ∨ ∀ c ∈ text, q c = false) : hasPair p q text = false := by
  induction text with
  | nil => rfl
  | cons a text ih =>
    cases text with
    | nil => rfl
    | cons b text =>
      have hrest : hasPair p q (b :: text) = false := by
        refine ih (h.imp ?_ ?_) <;> exact fun h c hc => h c (List.mem_cons_of_mem a hc)
      rw [hasPair, hrest, Bool.or_false]
      rcases h with h | h
      · simp [h a List.mem_cons_self]
      · simp [h b (by simp)]

/-- A text that is written without quotation marks. -/
def isPlain (text : List Char) : Bool :=
  plainTag text = coreTag "str" && !(traits text).indicators && !(traits text).edgeBlank

/-- A visible text is written plainly or in single quotation marks. -/
theorem textStyle_visible (hv : ∀ c ∈ text, IsVisible c) (isKey : Bool) :
    textStyle isKey text = if isPlain text then .plain else .single := by
  have hbreak : ∀ c ∈ text, isBreak c = false := fun c hc => (hv c hc).isBreak
  have hbreaks : (traits text).breaks = false := by simpa [traits] using hbreak
  have hspecial : (traits text).special = false := by
    simpa [traits] using fun c hc => (hv c hc).isClear
  have hafter : (traits text).spaceAfterBreak = false := hasPair_eq_false (.inl hbreak)
  have hbefore : (traits text).breakAfterSpace = false := hasPair_eq_false (.inr hbreak)
  simp only [textStyle, hbreaks, hspecial, hafter, hbefore, isPlain]
  simp

/-- The signs that no plain text begins with. -/
def startSigns : List Char :=
  "#,[]\x7b\x7d&*!|>'\"%@`".toList

/-- The beginning of a plain text is none of the signs that mean something there. -/
structure PlainStart (w : List Char) : Prop where
  sign : ∀ c ∈ w.head?, c ∉ startSigns
  mark : ∀ c ∈ w.head?, c = '?' ∨ c = ':' ∨ c = '-' → 2 ≤ w.length
  notDashes : w.take 3 ≠ ['-', '-', '-']
  notDots : w.take 3 ≠ ['.', '.', '.']

/-- A text that can be read back without quotation marks. -/
structure PlainText (text : List Char) : Prop where
  phrase : Phrase (runs text)
  start : ∀ w rest, runs text = (.word, w) :: rest → PlainStart w

theorem head?_ne_space {rs : List (RunKind × List Char)} (ha : Alternates rs)
    (hv : ∀ r ∈ rs, ∀ c ∈ r.2, IsVisible c) (h : (rs.flatMap Prod.snd).head? ≠ some ' ') :
    ∀ r ∈ rs.head?, r.1 ≠ .space := by
  rintro ⟨kind, run⟩ hr rfl
  obtain ⟨rest, rfl⟩ := List.head?_eq_some_iff.mp hr
  obtain ⟨_, hs⟩ := (ha.kind_eq (hv _ List.mem_cons_self)).resolve_left fun h => by cases h.1
  cases ha with
  | cons hne =>
    obtain ⟨c, run, rfl⟩ := List.exists_cons_of_ne_nil hne
    exact h (by simp [hs c List.mem_cons_self])

theorem Alternates.last {front : List (RunKind × List Char)} {r : RunKind × List Char}
    (h : Alternates (front ++ [r])) : Alternates [r] := by
  induction front with
  | nil => exact h
  | cons x front ih =>
    cases h with
    | cons _ _ _ h => exact ih h

theorem getLast?_ne_space {rs : List (RunKind × List Char)} (ha : Alternates rs)
    (hv : ∀ r ∈ rs, ∀ c ∈ r.2, IsVisible c) (h : (rs.flatMap Prod.snd).getLast? ≠ some ' ') :
    ∀ r ∈ rs.getLast?, r.1 ≠ .space := by
  rintro ⟨kind, run⟩ hr rfl
  obtain ⟨front, rfl⟩ := List.getLast?_eq_some_iff.mp hr
  have hlast := ha.last
  obtain ⟨_, hs⟩ := (hlast.kind_eq (hv (.space, run) (by simp))).resolve_left fun h => by
    cases h.1
  cases hlast with
  | cons hne =>
    obtain ⟨u, c, rfl⟩ := (List.eq_nil_or_concat' run).resolve_left hne
    refine h ?_
    rw [hs c (by simp)]
    simp

/-- Behind the first word of a text there is a space, or its end. -/
theorem endsWord_after {w : List Char} {rest : List (RunKind × List Char)}
    (ha : Alternates ((.word, w) :: rest)) (hv : ∀ r ∈ rest, ∀ c ∈ r.2, IsVisible c) :
    endsWord ((rest.flatMap Prod.snd).headD endMark) = true := by
  cases ha with
  | cons _ _ hnext ha =>
    cases rest with
    | nil => rfl
    | cons r rest =>
      obtain ⟨kind, run⟩ := r
      obtain ⟨rfl, hs⟩ := (ha.kind_eq (hv _ List.mem_cons_self)).resolve_left fun h =>
        hnext _ rfl h.1
      cases ha with
      | cons hne =>
        obtain ⟨c, run, rfl⟩ := List.exists_cons_of_ne_nil hne
        rw [hs c List.mem_cons_self]
        rfl

theorem take_three_ne {w v : List Char} {c : Char} (h : (w ++ v).take 3 ≠ [c, c, c]) :
    w.take 3 ≠ [c, c, c] := by
  intro htake
  have hlen := congrArg List.length htake
  simp only [List.length_take, List.length_cons, List.length_nil] at hlen
  rw [List.take_append_of_le_length (by omega)] at h
  exact h htake

theorem plainStart_of_hasSign {w v : List Char} (hne : w ≠ []) (hv : ∀ c ∈ w ++ v, IsVisible c)
    (hafter : endsWord (v.headD endMark) = true) (h : hasSign true endMark (w ++ v) = false)
    (hdashes : (w ++ v).take 3 ≠ ['-', '-', '-']) (hdots : (w ++ v).take 3 ≠ ['.', '.', '.']) :
    PlainStart w := by
  obtain ⟨c, w, rfl⟩ := List.exists_cons_of_ne_nil hne
  obtain ⟨_, _, hsign, hsame⟩ := exists_isSignAt (u := []) (v := w ++ v) h fun d hd =>
    hv d (List.mem_cons_of_mem c hd)
  obtain ⟨rfl, rfl⟩ := hsame rfl
  simp only [isSignAt, if_true, Bool.or_eq_false_iff] at hsign
  refine ⟨?_, ?_, take_three_ne hdashes, take_three_ne hdots⟩
  · rintro d ⟨⟩ hm
    have hlisted : startSigns.contains c = false := hsign.1
    rw [List.contains_iff_mem.mpr hm] at hlisted
    cases hlisted
  · rintro d ⟨⟩ hmark
    by_contra hlt
    have hnil : w = [] := by
      rw [← List.length_eq_zero_iff]
      simp only [List.length_cons] at hlt
      omega
    subst hnil
    rw [List.nil_append, hafter] at hsign
    rcases hmark with rfl | rfl | rfl <;> simp at hsign

theorem plainText_of_isPlain (hv : ∀ c ∈ text, IsVisible c) (h : isPlain text = true) :
    PlainText text := by
  simp only [isPlain, Bool.and_eq_true, decide_eq_true_eq, Bool.not_eq_true'] at h
  obtain ⟨⟨htag, hsigns⟩, hedge⟩ := h
  have hflat := flatMap_runs text
  have hvr := visible_runs hv
  have hne : runs text ≠ [] := by
    intro hnil
    rw [hnil] at hflat
    subst hflat
    revert htag
    decide
  simp only [traits, Bool.or_eq_false_iff, decide_eq_false_iff_not] at hsigns hedge
  obtain ⟨⟨hdashes, hdots⟩, hsigns⟩ := hsigns
  have hhead : text.head? ≠ some ' ' := by
    intro hsp
    simp [hsp] at hedge
  have hlast : text.getLast? ≠ some ' ' := by
    intro hsp
    simp [hsp] at hedge
  have hfirst := head?_ne_space (alternates_runs text) hvr (hflat.symm ▸ hhead)
  refine ⟨phrase_of_alternates (alternates_runs text) hvr hne hfirst
    (getLast?_ne_space (alternates_runs text) hvr (hflat.symm ▸ hlast)) (.inl rfl)
    (hflat.symm ▸ hsigns), fun w rest hruns => ?_⟩
  have ha := hruns ▸ alternates_runs text
  have hafter := endsWord_after ha fun r hr => hvr r (hruns ▸ List.mem_cons_of_mem _ hr)
  have hword : w ≠ [] := by
    cases ha with
    | cons hne => exact hne
  rw [hruns, List.flatMap_cons] at hflat
  subst hflat
  exact plainStart_of_hasSign hword hv hafter hsigns hdashes hdots

/-- The characters that a text is written with, and whether there are no quotation marks among
them. The lines of a long text go on at the column `hang`. -/
inductive Inscribed (hang : Nat) (text : List Char) : Bool → List Char → Prop
  | plain {out : List Char} : PlainText text → Wrapped hang id (runs text) out →
    Inscribed hang text true out
  | single {out : List Char} : (∀ c ∈ text, IsVisible c) → Wrapped hang doubled (runs text) out →
    Inscribed hang text false ('\'' :: (out ++ ['\'']))

variable {hang : Nat}

theorem writeText_visible (hv : ∀ c ∈ text, IsVisible c) (isKey : Bool) (p : Page) :
    writeText hang isKey text p =
      if isPlain text then writePlain hang (!isKey) text p
      else writeSingle hang (!isKey) text p := by
  have hstyle := textStyle_visible hv isKey
  by_cases h : isPlain text = true
  · rw [if_pos h] at hstyle ⊢
    unfold writeText
    split
    next => rfl
    next heq => cases heq.symm.trans hstyle
    next heq => cases heq.symm.trans hstyle
  · rw [if_neg h] at hstyle ⊢
    unfold writeText
    split
    next heq => cases heq.symm.trans hstyle
    next => rfl
    next heq => cases heq.symm.trans hstyle

/-- A visible text is written behind a blank. A key stays in its line. -/
theorem exists_inscribed (hv : ∀ c ∈ text, IsVisible c) (hh : hang ≤ Page.width) (isKey : Bool)
    (p : Page) : ∃ out, Inscribed hang text (isPlain text) out ∧
      (writeText hang isKey text p).text.toList = p.text.toList ++ (p.lead ++ out) ∧
      (writeText hang isKey text p).afterIndent = false ∧
      (isKey = true → '\n' ∉ out ∧ out.length ≤ 2 * text.length + 2) := by
  have hline : '\n' ∉ text := fun hm => absurd (hv _ hm) (by decide)
  rw [writeText_visible hv]
  cases hplain : isPlain text with
  | true =>
    rw [if_pos rfl]
    have hp := plainText_of_isPlain hv hplain
    obtain ⟨out, hwrap, htext, hi, hsame⟩ := @Phrase.writePlain hang (!isKey) text hp.phrase p
    refine ⟨out, .plain hp hwrap, htext, hi, fun hkey => ?_⟩
    obtain rfl := hsame (by simp [hkey])
    exact ⟨hline, by omega⟩
  | false =>
    rw [if_neg Bool.false_ne_true]
    obtain ⟨out, hwrap, htext, hi, hno⟩ := @exists_writeSingle hang (!isKey) text hv hh p
    refine ⟨_, .single hv hwrap, htext, hi, fun hkey => ?_⟩
    have hout := hno (by simp [hkey])
    have hlen := hwrap.length_le length_doubled_le hout
    rw [flatMap_runs] at hlen
    refine ⟨by simp [hout], ?_⟩
    simp only [List.length_cons, List.length_append, List.length_nil]
    omega

end Style

end Yaml

end NPlusOne
