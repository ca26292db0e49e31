import NPlusOne.Proofs.YamlLayout
import NPlusOne.Proofs.YamlScan

namespace NPlusOne

namespace Yaml

open Scan

variable {b b' : Blocks} {i j : Input} {allowed : Bool} {w ts ts' u : List Token} {t : Token}
  {k m hang : Nat} {r x text out : List Char}

/-- The key that a token may begin, if one may begin there. -/
def Blocks.pending (b : Blocks) (i : Input) (allowed : Bool) (number : Nat) : Option PendingKey :=
  if allowed then some ⟨0, number, b.indent = i.column, i.index, i.line, i.column⟩ else none

theorem noteKey_run : noteKey.run (b.scan i allowed w k []) =
    .ok ((), b.scan i allowed w k (b.pending i allowed (k + w.length)).toList) := by
  cases allowed with
  | false => rfl
  | true =>
    rw [noteKey, run_get_bind]
    simp [Blocks.pending]
    rfl

theorem read_cons {s : ScanState} {c : Char} {rest : List Char} (h : s.input.rest = c :: rest) :
    Scan.read.run s = token.run s := by
  rw [Scan.read, run_bind_ok rfl, h]
  rfl

section Plain

variable {newLine : Bool}

theorem plain_run (h : PlainReads (b.indent + 1) i text newLine j) :
    plain.run (b.scan i allowed w k []) = .ok ((), b.scan j newLine
      (w ++ [.scalar (String.ofList text) true]) k
      (b.pending i allowed (k + w.length)).toList) := by
  have hscalar : plainScalar false (b.indent + 1) i = (String.ofList text, newLine, j) := by
    rw [plainScalar, h _ [] false (Nat.lt_succ_self _)]
    rfl
  rw [plain, run_bind_ok noteKey_run, run_bind_ok rfl, run_get_bind]
  have hflow : decide ((0 : Nat) ≠ 0) = false := rfl
  simp only [hflow, hscalar]
  rfl

theorem token_open {s : ScanState} {c : Char} (hpeek : s.input.peek = c) (h : c ∉ startSigns) :
    token.run s = (openToken c).run s := by
  rw [token, run_bind_ok rfl]
  split
  case h_12 => rw [hpeek]
  all_goals
    next heq => exact absurd (by decide) (hpeek.symm.trans heq ▸ h)

/-- What follows a mark at the beginning of a plain text is part of it. -/
theorem PlainStart.second (h : PlainStart text) (hw : PlainWord text) {c : Char}
    (hc : text.head? = some c) (hmark : c = '?' ∨ c = ':' ∨ c = '-') {i l k : Nat} :
    endsWord ((⟨text ++ x, i, l, k⟩ : Input).peekAt 1) = false := by
  have hlen := h.mark c hc hmark
  obtain ⟨_, text, rfl⟩ := List.exists_cons_of_ne_nil hw.nonempty
  obtain ⟨d, text, rfl⟩ : ∃ d text', text = d :: text' :=
    List.exists_cons_of_ne_nil fun hnil => by simp [hnil] at hlen
  have hds : d ≠ ' ' := fun heq => hw.whole (by simp [heq])
  exact (hw.visible d (by simp)).endsWord_of_ne hds

theorem PlainStart.beginsPlain (h : PlainStart text) (hw : PlainWord text) {c : Char}
    (hc : text.head? = some c) {i l k : Nat} :
    beginsPlain false c ((⟨text ++ x, i, l, k⟩ : Input).peekAt 1) = true := by
  by_cases hmark : c = '?' ∨ c = ':' ∨ c = '-'
  · rw [Scan.beginsPlain, h.second hw hc hmark]
    rcases hmark with rfl | rfl | rfl <;> rfl
  · have hm := List.mem_of_head? hc
    have hcs : c ≠ ' ' := fun heq => hw.whole (heq ▸ hm)
    have hindicator : isIndicator c = false := by
      have hlist : ∀ d ∈ "-?:,[]\x7b\x7d#&*!|>'\"%@`".toList, d ∈ startSigns ∨ d = '?' ∨ d = ':' ∨
          d = '-' := List.forall_iff_forall_mem.mp (by decide)
      rw [← Bool.not_eq_true, isIndicator, List.contains_iff_mem]
      exact fun hd => (hlist c hd).elim (h.sign c hc) hmark
    rw [Scan.beginsPlain, (hw.visible c hm).endsWord_of_ne hcs, hindicator]
    rfl

/-- A plain text begins with none of the signs that begin another token. -/
theorem token_plain (hw : PlainWord text) (h : PlainStart text) (hs : Starts (text ++ x))
    {i l c : Nat} : token.run (b.scan ⟨text ++ x, i, l, c⟩ allowed w k []) =
      plain.run (b.scan ⟨text ++ x, i, l, c⟩ allowed w k []) := by
  obtain ⟨d, hd⟩ : ∃ d, text.head? = some d :=
    Option.isSome_iff_exists.mp (List.isSome_head?.mpr hw.nonempty)
  have hsign := h.sign d hd
  have hbar : d ≠ '|' := fun heq => hsign (heq ▸ by decide)
  have hmore : d ≠ '>' := fun heq => hsign (heq ▸ by decide)
  have hmarks : ∀ e, (text ++ x).take 3 ≠ [e, e, e] →
      (⟨text ++ x, i, l, c⟩ : Input).atMarks e = false := by
    intro e he
    rw [Input.atMarks, decide_eq_false he, Bool.false_and]
  have hstands : ∀ e, e = '?' ∨ e = ':' ∨ e = '-' →
      (d = e && endsWord ((⟨text ++ x, i, l, c⟩ : Input).peekAt 1)) = false := by
    intro e he
    by_cases hde : d = e
    · rw [h.second hw hd (hde ▸ he), Bool.and_false]
    · rw [decide_eq_false hde, Bool.false_and]
  have hflow : decide ((0 : Nat) ≠ 0) = false := rfl
  rw [token_open (Input.peek_append hd) hsign, openToken, run_get_bind]
  simp only [hflow, hmarks '-' hs.notDashes, hmarks '.' hs.notDots, hstands '-' (by simp),
    hstands '?' (by simp), hstands ':' (by simp), hbar, hmore, h.beginsPlain hw hd,
    decide_false, Bool.and_false, Bool.false_and, Bool.false_or, Bool.false_eq_true, if_false,
    if_true]

theorem take_three_append {c : Char} (hw : text.take 3 ≠ [c, c, c]) (hx : x.head? ≠ some c) :
    (text ++ x).take 3 ≠ [c, c, c] := by
  intro h
  by_cases hlen : 3 ≤ text.length
  · rw [List.take_append_of_le_length hlen] at h
    exact hw h
  · have hget : ((text ++ x).take 3)[text.length]? = x.head? := by
      rw [List.getElem?_take_of_lt (by omega), List.getElem?_append_right (Nat.le_refl _),
        Nat.sub_self, List.head?_eq_getElem?]
    rw [h] at hget
    obtain hlen | hlen | hlen : text.length = 0 ∨ text.length = 1 ∨ text.length = 2 := by omega
    all_goals
      rw [hlen] at hget
      exact hx hget.symm

theorem Phrase.exists_first {rs : List (RunKind × List Char)} (h : Phrase rs)
    (hwrap : Wrapped hang id rs out) : ∃ word rest out', rs = (.word, word) :: rest ∧
      PlainWord word ∧ out = word ++ out' ∧ ∀ c ∈ out'.head?, c = ' ' ∨ c = '\n' := by
  cases h with
  | last hword =>
    cases hwrap with
    | word hwrap =>
      cases hwrap
      exact ⟨_, _, [], rfl, hword, rfl, by simp⟩
  | more hword hne hs _ =>
    cases hwrap with
    | word hwrap =>
      refine ⟨_, _, _, rfl, hword, rfl, fun c hc => ?_⟩
      cases hwrap with
      | space =>
        obtain ⟨d, run, rfl⟩ := List.exists_cons_of_ne_nil hne
        cases hc
        exact .inl (hs _ List.mem_cons_self)
      | fold =>
        cases hc
        exact .inr rfl

/-- What is written for a text begins a token. -/
theorem Inscribed.starts {plain : Bool} (h : Inscribed hang text plain out)
    (hx : ∀ c ∈ x.head?, c ≠ '-' ∧ c ≠ '.') : Starts (out ++ x) := by
  cases h with
  | single => constructor <;> simp [IsVisible]
  | plain hp hwrap =>
    obtain ⟨word, rest, out, hruns, hword, rfl, hout⟩ := hp.phrase.exists_first hwrap
    have hstart := hp.start word rest hruns
    have hnext : ∀ c ∈ (out ++ x).head?, c ≠ '-' ∧ c ≠ '.' := by
      cases out with
      | nil => exact hx
      | cons d out =>
        rintro c ⟨⟩
        rcases hout d rfl with rfl | rfl <;> decide
    rw [List.append_assoc]
    obtain ⟨d, word, rfl⟩ := List.exists_cons_of_ne_nil hword.nonempty
    refine ⟨?_, ?_, ?_, ?_, ?_⟩
    · rintro c ⟨⟩
      exact hword.visible d List.mem_cons_self
    · rintro ⟨⟩
      exact hword.whole List.mem_cons_self
    · rintro ⟨⟩
      exact hword.notComment rfl
    · exact take_three_append hstart.notDashes fun heq => (hnext _ heq).1 rfl
    · exact take_three_append hstart.notDots fun heq => (hnext _ heq).2 rfl

end Plain

section Quoted

theorem quoted_run (h : Unquotes i.next text j) (hlen : i.next.rest.length ≤ i.rest.length) :
    (keyPart (quoted false)).run (b.scan i allowed w k []) = .ok ((), b.scan j false
      (w ++ [.scalar (String.ofList text) false]) k
      (b.pending i allowed (k + w.length)).toList) := by
  have hscalar : quotedScalar false i = .ok (String.ofList text, j) :=
    except_bind_eq_ok.mpr ⟨_, h _ (Nat.lt_succ_of_le hlen), rfl⟩
  have hquoted : ∀ s : ScanState, s.input = i → (quoted false).run s =
      .ok (.scalar (String.ofList text) false, { s with input := j }) := by
    rintro s rfl
    rw [quoted, run_bind_ok rfl]
    have hlift : (liftM (quotedScalar false s.input) : Scan (String × Input)).run s =
        .ok ((String.ofList text, j), s) := by
      rw [hscalar]
      rfl
    exact (run_bind_ok hlift).trans rfl
  rw [keyPart, run_bind_ok noteKey_run, run_bind_ok rfl, run_bind_ok (hquoted _ rfl)]
  rfl

end Quoted

section Scalars

variable {plain : Bool} {column : Nat}

theorem Blocks.mem_pending {number : Nat} {κ : PendingKey} (h : κ ∈ b.pending i allowed number) :
    κ.token = number ∧ κ.required = decide (b.indent = i.column) ∧ κ.line = i.line := by
  unfold Blocks.pending at h
  split at h
  next =>
    cases h
    exact ⟨rfl, rfl, rfl⟩
  next => cases h

theorem PlainText.read_run {newLine : Bool} (h : PlainText text)
    (hwrap : Wrapped hang id (runs text) out) (hs : Starts (out ++ x)) {i l : Nat}
    (hread : PlainReads (b.indent + 1) ⟨out ++ x, i, l, column⟩ text newLine j) :
    Scan.read.run (b.scan ⟨out ++ x, i, l, column⟩ allowed w k []) = .ok ((), b.scan j newLine
      (w ++ [.scalar (String.ofList text) true]) k
      (b.pending ⟨out ++ x, i, l, column⟩ allowed (k + w.length)).toList) := by
  obtain ⟨word, rest, out, hruns, hword, rfl, _⟩ := h.phrase.exists_first hwrap
  obtain ⟨d, word', hcons⟩ := List.exists_cons_of_ne_nil hword.nonempty
  rw [List.append_assoc] at hs hread ⊢
  have hrest : (⟨word ++ (out ++ x), i, l, column⟩ : Input).rest = d :: (word' ++ (out ++ x)) := by
    simp [hcons]
  rw [read_cons hrest, token_plain hword (h.start word rest hruns) hs]
  exact plain_run hread

theorem single_read_run {i l : Nat} (h : Unquotes ⟨x, i + 1, l, column + 1⟩ text j) :
    Scan.read.run (b.scan ⟨'\'' :: x, i, l, column⟩ allowed w k []) = .ok ((), b.scan j false
      (w ++ [.scalar (String.ofList text) false]) k
      (b.pending ⟨'\'' :: x, i, l, column⟩ allowed (k + w.length)).toList) := by
  have hnext : (⟨'\'' :: x, i, l, column⟩ : Input).next = ⟨x, i + 1, l, column + 1⟩ :=
    Input.next_visible (by decide)
  have htoken : token.run (b.scan ⟨'\'' :: x, i, l, column⟩ allowed w k []) =
    (keyPart (quoted false)).run (b.scan ⟨'\'' :: x, i, l, column⟩ allowed w k []) := rfl
  rw [read_cons rfl, htoken]
  exact quoted_run (hnext ▸ h) (by simp [hnext])

/-- A text that ends with its line is read back. -/
theorem Inscribed.reads (h : Inscribed hang text plain out) (hl : Lands r m b ts) (hs : Starts r)
    (hm : m ≤ b.indent) (hh : b.indent < hang) (hc : b.indent < column) :
    Reads (out ++ '\n' :: (spaces m ++ r)) column b allowed
      (.scalar (String.ofList text) plain :: ts) := by
  intro i l w k
  have hstarts := h.starts (x := '\n' :: (spaces m ++ r)) (by simp)
  have hkey : ∀ κ ∈ b.pending ⟨out ++ '\n' :: (spaces m ++ r), i, l, column⟩ allowed (k + w.length),
      κ.token = k + w.length ∧ κ.required = false ∧ κ.line = l := by
    intro κ hκ
    obtain ⟨htoken, hrequired, hline⟩ := Blocks.mem_pending hκ
    refine ⟨htoken, ?_, hline⟩
    rw [hrequired, decide_eq_false (by simpa using Int.ne_of_lt hc)]
  cases h with
  | plain hp hwrap =>
    obtain ⟨i', l', _, hread, hline, _⟩ := @Phrase.plainReads (b.indent + 1) true hang (runs text)
      out ('\n' :: (spaces m ++ r)) (fun i l _ => ⟨r, i + 1 + m, l + 1, m⟩) hp.phrase hwrap
      (by omega) (by omega) (fun word hword i l k => hword.lineEnd hs (by omega) i l k) i l column
      (by omega)
    rw [flatMap_runs] at hread
    refine ⟨_, hp.read_run hwrap hstarts hread, ?_, hl.arrived hs _ fun κ hκ => ?_⟩
    · simp [ScanState.weight]
      omega
    · obtain ⟨htoken, hrequired, hκline⟩ := hkey κ hκ
      exact ⟨by simp, htoken, hrequired, by omega⟩
  | @single out hv hwrap =>
    obtain ⟨i', l', k', hread, hline, _⟩ := @unquotes_of_wrapped ('\n' :: (spaces m ++ r)) hang
      (runs text) out hwrap (alternates_runs text) (visible_runs hv) (by omega) (by simp) (i + 1) l
      (column + 1)
    rw [flatMap_runs] at hread
    have happend : '\'' :: (out ++ ['\'']) ++ '\n' :: (spaces m ++ r) =
      '\'' :: (out ++ '\'' :: '\n' :: (spaces m ++ r)) := by simp
    rw [happend] at hkey ⊢
    refine ⟨_, single_read_run hread, ?_, hl.newLine hs _ fun κ hκ => ?_⟩
    · simp [ScanState.weight]
      omega
    · obtain ⟨htoken, hrequired, hκline⟩ := hkey κ hκ
      exact ⟨by simp, htoken, hrequired, by omega⟩

end Scalars

/-- A block at a column is begun with a token, or is open already. -/
inductive Blocks.Opens (c : Nat) (start : Token) : Blocks → Blocks → List Token → Prop
  | new {b : Blocks} : b.indent < c → Opens c start b (b.push c) [start]
  | same {b : Blocks} : b.indent = c → Opens c start b b []

section Keys

theorem Inscribed.length_pos {plain : Bool} (h : Inscribed hang text plain out) :
    0 < out.length := by
  cases h with
  | single => simp
  | plain hp hwrap =>
    obtain ⟨word, _, _, _, hword, rfl, _⟩ := hp.phrase.exists_first hwrap
    have hpos := List.length_pos_iff.mpr hword.nonempty
    rw [List.length_append]
    omega

/-- A mark that stands alone is no separator of documents. -/
theorem openToken_alone {s : ScanState} {d : Char} (hs : s.input.rest = d :: x)
    (hx : endsWord (x.headD endMark) = true) (hflow : s.flow = 0) :
    (openToken '-').run s = blockEntry.run s ∧ (openToken '?').run s = explicitKey.run s ∧
      (openToken ':').run s = mappingValue.run s := by
  have hmarks : ∀ e, endsWord e = false → s.input.atMarks e = false := by
    intro e he
    have hne : (d :: x).take 3 ≠ [e, e, e] := by
      cases x with
      | nil => simp
      | cons f x =>
        intro heq
        have hf : f = e := by simp_all
        rw [hf] at hx
        exact absurd hx (by simp [he])
    rw [Input.atMarks, hs, decide_eq_false hne, Bool.false_and]
  have hstands : endsWord (s.input.peekAt 1) = true := by
    rw [Input.peekAt, hs]
    cases x <;> exact hx
  have hzero : decide (s.flow ≠ 0) = false := by simp [hflow]
  have hdash := hmarks '-' (by decide)
  have hdot := hmarks '.' (by decide)
  refine ⟨?_, ?_, ?_⟩
  all_goals
    rw [openToken, run_get_bind]
    simp [hdash, hdot, hstands, hflow]

variable {lead : List Token} {c column e l : Nat} {plain : Bool}

theorem skip_one {d : Char} (h : IsVisible d) :
    (⟨d :: x, e, l, column⟩ : Input).skip 1 = ⟨x, e + 1, l, column + 1⟩ := by
  rw [Input.skip, Input.next_visible h, Input.skip]

theorem openBlock_run (ho : b.Opens c t b' lead) {keys : List PendingKey} :
    (openBlock c).run (b.scan i allowed w k keys) =
      .ok (!lead.isEmpty, b'.scan i allowed w k keys) := by
  rw [openBlock, run_get_bind]
  cases ho with
  | new hlt =>
    rw [if_pos hlt]
    rfl
  | same heq =>
    rw [if_neg (by simp [heq])]
    rfl

theorem allowKey_run {a : Bool} {keys : List PendingKey} :
    (allowKey a).run (b.scan i allowed w k keys) = .ok ((), b.scan i a w k keys) := rfl

theorem emit_run {keys : List PendingKey} :
    (emit t).run (b.scan i allowed w k keys) = .ok ((), b.scan i allowed (w ++ [t]) k keys) := rfl

theorem advance_run {d : Char} (h : IsVisible d) {keys : List PendingKey} :
    (advance 1).run (b.scan ⟨d :: x, e, l, column⟩ allowed w k keys) =
      .ok ((), b.scan ⟨x, e + 1, l, column + 1⟩ allowed w k keys) := by
  rw [← skip_one h]
  rfl

/-- The place of a token that stands alone, by its sign. -/
theorem mappingValue_run (ho : b.Opens c .blockMappingStart b' lead) {required : Bool}
    {e' l' : Nat} :
    mappingValue.run (b.scan ⟨':' :: x, e, l, column⟩ false [t] k [⟨0, k, required, e', l', c⟩]) =
      .ok ((), b'.scan ⟨x, e + 1, l, column + 1⟩ false (lead ++ [.key, t, .value]) k []) := by
  have hinsert : ∀ {b : Blocks} {w : List Token} {t : Token},
      (Scan.insert k t).run (b.scan ⟨':' :: x, e, l, column⟩ false w k []) =
        .ok ((), b.scan ⟨':' :: x, e, l, column⟩ false (t :: w) k []) := by
    intro b w t
    change Except.ok ((), _) = _
    simp
  rw [mappingValue, run_get_bind]
  simp only [List.find?_cons, decide_true, List.filter_cons, List.filter_nil, ne_eq,
    not_true_eq_false, decide_false, Bool.false_eq_true, if_false, if_true]
  rw [run_bind_ok rfl, run_bind_ok hinsert, run_bind_ok (openBlock_run ho)]
  cases ho with
  | new =>
    simp only [List.isEmpty_cons, Bool.not_false, if_true]
    rw [run_bind_ok hinsert, run_bind_ok allowKey_run, run_bind_ok (advance_run (by decide)),
      emit_run]
    rfl
  | same =>
    simp only [List.isEmpty_nil, Bool.not_true, Bool.false_eq_true, if_false]
    rw [run_bind_ok allowKey_run, run_bind_ok (advance_run (by decide)), emit_run]
    rfl

/-- The colon behind a possible key makes it one. -/
theorem streams_colon (ho : b.Opens c .blockMappingStart b' lead)
    (hx : endsWord (x.headD endMark) = true) (hle : b.indent ≤ column) {required : Bool}
    {e' l' : Nat} (hfresh : PendingKey.isStale ⟨0, k, required, e', l', c⟩
      ⟨':' :: x, e, l, column⟩ = false) (hg : Goes x (column + 1) b' false ts) :
    Streams (b.scan ⟨':' :: x, e, l, column⟩ false [t] k [⟨0, k, required, e', l', c⟩])
      (lead ++ .key :: t :: .value :: ts) := by
  have hcolon : Starts (':' :: x) := by constructor <;> simp [IsVisible]
  have hmore := needsMore_fresh (s := b.scan ⟨':' :: x, e, l, column⟩ false [t] k
    [⟨0, k, required, e', l', c⟩]) rfl (by simp) (by simpa using hfresh)
  simp only [List.any_cons, decide_true, List.any_nil, Bool.or_false] at hmore
  have happroach := @approach_spaces b b false [t] k 0 0 [⟨0, k, required, e', l', c⟩] (':' :: x)
    hcolon e l column (.stay hle) (by simpa using hfresh)
  have htoken := (openToken_alone (s := b.scan ⟨':' :: x, e, l, column⟩ false [t] k
    [⟨0, k, required, e', l', c⟩]) rfl hx rfl).2.2.trans (mappingValue_run ho)
  have hread := (read_cons rfl).trans ((token_open (c := ':') rfl (by decide)).trans htoken)
  have hgoes := hg (e + 1) l (lead ++ [.key, t, .value]) k
  rw [List.append_assoc] at hgoes
  refine hgoes.of_fetch hmore ((fetch_run happroach).trans hread) ?_
  simp [ScanState.weight]

/-- A key that stands in the line of its value is read back, with the map that it may begin. -/
theorem Inscribed.reads_key (h : Inscribed hang text plain out) (hno : '\n' ∉ out)
    (hlen : out.length ≤ 1000) (hh : c < hang) (ho : b.Opens c .blockMappingStart b' lead)
    (hx : endsWord (x.headD endMark) = true) (hg : Goes x (c + out.length + 1) b' false ts) :
    Reads (out ++ ':' :: x) c b true
      (lead ++ .key :: .scalar (String.ofList text) plain :: .value :: ts) := by
  intro i l w k
  have hle : b.indent ≤ c := by
    cases ho with
    | new hlt => exact Int.le_of_lt hlt
    | same heq => exact Int.le_of_eq heq
  have hstarts := h.starts (x := ':' :: x) (by simp)
  -- The text itself stays in its line and leaves a possible key behind.
  have hread : Scan.read.run (b.scan ⟨out ++ ':' :: x, i, l, c⟩ true w k []) = .ok ((),
      b.scan ⟨':' :: x, i + out.length, l, c + out.length⟩ false
        (w ++ [.scalar (String.ofList text) plain]) k
        [⟨0, k + w.length, b.indent = c, i, l, c⟩]) := by
    cases h with
    | plain hp hwrap =>
      obtain ⟨i', l', k', hread, _, hsame⟩ := @Phrase.plainReads (b.indent + 1) false hang
        (runs text) out (':' :: x) (fun i l k => ⟨':' :: x, i, l, k⟩) hp.phrase hwrap
        (by omega) (by omega) (fun word hword i l k => hword.colon hx i l k) i l c (by omega)
      obtain ⟨rfl, rfl, rfl⟩ := hsame hno
      rw [flatMap_runs] at hread
      exact hp.read_run hwrap hstarts hread
    | @single out hv hwrap =>
      obtain ⟨i', l', k', hread, _, hsame⟩ := @unquotes_of_wrapped (':' :: x) hang (runs text) out
        hwrap (alternates_runs text) (visible_runs hv) (by omega) (by simp) (i + 1) l (c + 1)
      obtain ⟨rfl, rfl, rfl⟩ := hsame fun hm => hno (by simp [hm])
      rw [flatMap_runs] at hread
      have happend : '\'' :: (out ++ ['\'']) ++ ':' :: x = '\'' :: (out ++ '\'' :: ':' :: x) := by
        simp
      have hlength : ('\'' :: (out ++ ['\''])).length = 1 + out.length + 1 := by
        simp only [List.length_cons, List.length_append, List.length_nil]
        omega
      rw [happend, hlength, ← Nat.add_assoc, ← Nat.add_assoc, ← Nat.add_assoc, ← Nat.add_assoc]
      exact single_read_run hread
  have hfresh : PendingKey.isStale ⟨0, k + w.length, b.indent = c, i, l, c⟩
      ⟨':' :: x, i + out.length, l, c + out.length⟩ = false := by
    simp [PendingKey.isStale]
    omega
  refine ⟨_, hread, ?_, Streams.deliver rfl rfl (by simp [hfresh]) ?_⟩
  · have hpos := h.length_pos
    simp only [ScanState.weight, List.length_append, List.length_cons, Bool.false_eq_true, if_false]
    omega
  · exact streams_colon ho hx (by push_cast; omega) hfresh hg

end Keys

section Marks

variable {lead : List Token} {c e l : Nat}

theorem openBlockAt_run (ho : b.Opens c t b' lead) :
    (openBlockAt t).run (b.scan ⟨x, e, l, c⟩ true w k []) =
      .ok ((), b'.scan ⟨x, e, l, c⟩ true (w ++ lead) k []) := by
  rw [openBlockAt, run_get_bind]
  simp only [if_true, Bool.not_true, Bool.false_eq_true, if_false]
  rw [run_bind_ok (openBlock_run ho)]
  cases ho with
  | new => rfl
  | same =>
    rw [List.append_nil]
    rfl

theorem dropKey_run : dropKey.run (b.scan i allowed w k []) = .ok ((), b.scan i allowed w k []) :=
  rfl

theorem blockEntry_run (ho : b.Opens c .blockSequenceStart b' lead) :
    blockEntry.run (b.scan ⟨'-' :: x, e, l, c⟩ true w k []) =
      .ok ((), b'.scan ⟨x, e + 1, l, c + 1⟩ true (w ++ lead ++ [.blockEntry]) k []) := by
  rw [blockEntry, run_bind_ok (openBlockAt_run ho), run_bind_ok allowKey_run,
    run_bind_ok dropKey_run, run_bind_ok (advance_run (by decide)), emit_run]

theorem explicitKey_run (ho : b.Opens c .blockMappingStart b' lead) :
    explicitKey.run (b.scan ⟨'?' :: x, e, l, c⟩ true w k []) =
      .ok ((), b'.scan ⟨x, e + 1, l, c + 1⟩ true (w ++ lead ++ [.key]) k []) := by
  rw [explicitKey, run_bind_ok (openBlockAt_run ho), run_get_bind, run_bind_ok allowKey_run,
    run_bind_ok dropKey_run, run_bind_ok (advance_run (by decide)), emit_run]
  rfl

theorem mappingValue_alone (hb : b.indent = c) :
    mappingValue.run (b.scan ⟨':' :: x, e, l, c⟩ true w k []) =
      .ok ((), b.scan ⟨x, e + 1, l, c + 1⟩ true (w ++ [] ++ [.value]) k []) := by
  rw [mappingValue, run_get_bind]
  simp only [List.find?_nil]
  rw [run_bind_ok (openBlockAt_run (.same hb)), run_bind_ok allowKey_run,
    run_bind_ok dropKey_run, run_bind_ok (advance_run (by decide)), emit_run]
  rfl

/-- A mark that stands alone is read, with the block that it may begin. -/
theorem reads_mark {d : Char} (hd : d ∉ startSigns)
    (hstep : ∀ e l w k, (openToken d).run (b.scan ⟨d :: x, e, l, c⟩ true w k []) =
      .ok ((), b'.scan ⟨x, e + 1, l, c + 1⟩ true (w ++ lead ++ [t]) k []))
    (hg : Goes x (c + 1) b' true ts) : Reads (d :: x) c b true (lead ++ t :: ts) := by
  intro e l w k
  have hgoes := hg (e + 1) l (w ++ lead ++ [t]) k
  refine ⟨_, (read_cons rfl).trans ((token_open (c := d) rfl hd).trans (hstep e l w k)), ?_, ?_⟩
  · simp [ScanState.weight]
  · simpa using hgoes

/-- The marks in front of a part of a block, with the tokens of the block and of the part. -/
inductive Leads : Char → Token → Token → Prop
  | item : Leads '-' .blockSequenceStart .blockEntry
  | key : Leads '?' .blockMappingStart .key

theorem reads_lead {d : Char} {start : Token} (hlead : Leads d start t)
    (ho : b.Opens c start b' lead) (hx : endsWord (x.headD endMark) = true)
    (hg : Goes x (c + 1) b' true ts) : Reads (d :: x) c b true (lead ++ t :: ts) := by
  cases hlead with
  | item =>
    exact reads_mark (by decide)
      (fun e l w k => (openToken_alone rfl hx rfl).1.trans (blockEntry_run ho)) hg
  | key =>
    exact reads_mark (by decide)
      (fun e l w k => (openToken_alone rfl hx rfl).2.1.trans (explicitKey_run ho)) hg

theorem reads_longValue (hb : b.indent = c) (hx : endsWord (x.headD endMark) = true)
    (hg : Goes x (c + 1) b true ts) : Reads (':' :: x) c b true (.value :: ts) :=
  reads_mark (by decide)
    (fun e l w k => (openToken_alone rfl hx rfl).2.2.trans (mappingValue_alone hb)) hg

end Marks

section Brackets

/-- The pairs of brackets, with their tokens. -/
inductive Brackets : Char → Char → Token → Token → Prop
  | square : Brackets '[' ']' .flowSequenceStart .flowSequenceEnd
  | curly : Brackets '\x7b' '\x7d' .flowMappingStart .flowMappingEnd

variable {c e l : Nat} {keys : List PendingKey} {d d' : Char} {t' : Token} {s : ScanState}

namespace Brackets

theorem starts (h : Brackets d d' t t') (x : List Char) : Starts (d :: x) ∧ Starts (d' :: x) := by
  cases h <;> exact ⟨by constructor <;> simp [IsVisible], by constructor <;> simp [IsVisible]⟩

theorem opens (h : Brackets d d' t t') (hs : s.input.peek = d) :
    token.run s = (openFlow t).run s := by
  rw [token, run_bind_ok rfl, hs]
  cases h <;> rfl

theorem closes (h : Brackets d d' t t') (hs : s.input.peek = d') :
    token.run s = (closeFlow t').run s := by
  rw [token, run_bind_ok rfl, hs]
  cases h <;> rfl

end Brackets

/-- The inside of a pair of brackets. -/
abbrev ScanState.inBrackets (s : ScanState) : ScanState :=
  { s with flow := 1 }

theorem openFlow_run (hd : IsVisible d) :
    (openFlow t).run (b.scan ⟨d :: x, e, l, c⟩ allowed w k []) =
      .ok ((), (b.scan ⟨x, e + 1, l, c + 1⟩ true (w ++ [t]) k
        (b.pending ⟨d :: x, e, l, c⟩ allowed (k + w.length)).toList).inBrackets) := by
  rw [openFlow, run_bind_ok noteKey_run, ← skip_one hd]
  rfl

/-- The bracket that closes a pair. -/
theorem Brackets.fetch_close (h : Brackets d d' t t')
    (hkeys : ∀ κ ∈ keys, κ.level = 0 ∧ κ.isStale ⟨d' :: x, e, l, c⟩ = false) :
    fetch.run (b.scan ⟨d' :: x, e, l, c⟩ true w k keys).inBrackets =
      .ok ((), b.scan ⟨x, e + 1, l, c + 1⟩ false (w ++ [t']) k keys) := by
  have hs := (h.starts x).2
  have hskip := @skipToToken_spaces 0 (d' :: x) hs
    (b.scan ⟨d' :: x, e, l, c⟩ true w k keys).inBrackets e l c (d' :: x).length
  have hfresh : keys.filter (!PendingKey.isStale · ⟨d' :: x, e, l, c⟩) = keys := by
    rw [List.filter_eq_self]
    intro κ hκ
    simp [(hkeys κ hκ).2]
  have hlevel : keys.filter (fun κ => !decide (κ.level = 1)) = keys := by
    rw [List.filter_eq_self]
    intro κ hκ
    simp [(hkeys κ hκ).1]
  have hstale : dropStaleKeys.run (b.scan ⟨d' :: x, e, l, c⟩ true w k keys).inBrackets =
      .ok ((), (b.scan ⟨d' :: x, e, l, c⟩ true w k keys).inBrackets) := by
    rw [dropStaleKeys_run, dropKeys_eq_ok fun κ hκ hstale => ?_, hfresh]
    rw [(hkeys κ hκ).2] at hstale
    cases hstale
  have happroach : approach.run (b.scan ⟨d' :: x, e, l, c⟩ true w k keys).inBrackets =
      .ok ((), (b.scan ⟨d' :: x, e, l, c⟩ true w k keys).inBrackets) := by
    rw [approach, run_bind_ok rfl]
    exact (run_bind_ok hskip).trans (run_bind_ok hstale)
  have hdrop : dropKey.run (b.scan ⟨d' :: x, e, l, c⟩ true w k keys).inBrackets =
      .ok ((), (b.scan ⟨d' :: x, e, l, c⟩ true w k keys).inBrackets) := by
    rw [dropKey, run_get_bind, dropKeys_eq_ok fun κ hκ hone => ?_, hlevel]
    simp [(hkeys κ hκ).1] at hone
  rw [fetch_run happroach, read_cons rfl, h.closes rfl, closeFlow, run_bind_ok hdrop,
    ← skip_one (hs.visible d' rfl)]
  rfl

/-- An empty pair of brackets at the end of a line. -/
theorem Brackets.reads (h : Brackets d d' t t') (hl : Lands r m b ts) (hs : Starts r)
    (hc : b.indent < c) :
    Reads (d :: d' :: '\n' :: (spaces m ++ r)) c b allowed (t :: t' :: ts) := by
  intro e l w k
  have hopens := h.opens (s := b.scan ⟨d :: d' :: '\n' :: (spaces m ++ r), e, l, c⟩ allowed w k [])
    rfl
  have hread := (read_cons rfl).trans
    (hopens.trans (openFlow_run ((h.starts []).1.visible d rfl)))
  refine ⟨_, hread, by simp [ScanState.weight], ?_⟩
  have hlt : ∀ {w w' : List Token} {k k' : Nat} {keys keys' : List PendingKey},
      (b.scan ⟨'\n' :: (spaces m ++ r), e + 1 + 1, l, c + 1 + 1⟩ false w k keys).weight <
        (b.scan ⟨d' :: '\n' :: (spaces m ++ r), e + 1, l, c + 1⟩ true w' k'
          keys').inBrackets.weight := by
    simp [ScanState.weight]
  cases allowed with
  | false =>
    have hnext : Streams (b.scan ⟨'\n' :: (spaces m ++ r), e + 1 + 1, l, c + 1 + 1⟩ false
        ([] ++ [t']) (k + (w ++ [t]).length) []) ([] ++ ([t'] ++ ts)) :=
      hl.newLine hs none (by simp)
    have hgoes := hnext.of_fetch (needsMore_empty rfl rfl) (h.fetch_close (by simp)) hlt
    have htokens : w ++ t :: t' :: ts = (w ++ [t]) ++ ([] ++ ([t'] ++ ts)) := by simp
    rw [htokens]
    exact Streams.deliver rfl (List.append_nil _).symm (by simp [Blocks.pending]) hgoes
  | true =>
    -- The first bracket may be a key, so both wait until the end of the line is seen.
    have hfresh : PendingKey.isStale ⟨0, k + w.length, b.indent = c, e, l, c⟩
        ⟨d' :: '\n' :: (spaces m ++ r), e + 1, l, c + 1⟩ = false := by
      simp [PendingKey.isStale]
    have hrequired : decide (b.indent = c) = false := decide_eq_false (Int.ne_of_lt hc)
    have hnext : Streams (b.scan ⟨'\n' :: (spaces m ++ r), e + 1 + 1, l, c + 1 + 1⟩ false
        ([] ++ [t, t']) (k + w.length) [⟨0, k + w.length, b.indent = c, e, l, c⟩])
        ([] ++ ([t, t'] ++ ts)) :=
      hl.newLine hs (some ⟨0, k + w.length, b.indent = c, e, l, c⟩) (by simp [hrequired])
    have hmore := needsMore_fresh (s := (b.scan ⟨d' :: '\n' :: (spaces m ++ r), e + 1, l, c + 1⟩
      true [t] (k + w.length) [⟨0, k + w.length, b.indent = c, e, l, c⟩]).inBrackets) rfl (by simp)
      (by simpa using hfresh)
    simp only [List.any_cons, decide_true, List.any_nil, Bool.or_false] at hmore
    have hgoes := hnext.of_fetch hmore (h.fetch_close (by simpa using hfresh)) hlt
    exact Streams.deliver rfl rfl (by simpa [Blocks.pending] using hfresh) hgoes

end Brackets

end Yaml

end NPlusOne
