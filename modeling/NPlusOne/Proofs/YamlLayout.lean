import NPlusOne.Proofs.YamlNumber
import NPlusOne.Yaml.Node

namespace NPlusOne

namespace Yaml

/-- A text, with or without quotation marks, stands for an atom. -/
def Means (text : List Char) (plain : Bool) (v : Value) : Prop :=
  ∃ kind, AtomKind.ofTag? (Parse.scalarTag none (String.ofList text) plain) = some kind ∧
    kind ≠ .timestamp ∧ kind.value (String.ofList text) = .ok v

/-- The keys of a map are visible texts, all different. -/
structure Keyed (es : List (Value × Value)) : Prop where
  texts : ∀ e ∈ es, ∃ s, e.1 = .text s ∧ ∀ c ∈ s.toList, IsVisible c
  distinct : (es.map Prod.fst).Nodup

/-- The values that a document can hold in full: visible texts, numbers that are not too long,
and lists and maps of such values. The number bounds how deep they stand in each other. -/
inductive Storable : Nat → Value → Prop
  | text {n : Nat} {s : String} : (∀ c ∈ s.toList, IsVisible c) → Storable n (.text s)
  | int {n : Nat} {m : Int} : m.natAbs < 10 ^ maxDigits → Storable n (.int m)
  | list {n : Nat} {vs : List Value} : (∀ v ∈ vs, Storable n v) → Storable (n + 1) (.list vs)
  | map {n : Nat} {es : List (Value × Value)} : Keyed es → (∀ e ∈ es, Storable n e.2) →
    Storable (n + 1) (.map es)

/-- A part of a document: a value behind the colon of a key or behind another mark, the items of a
list, one entry of a map, or all of them. -/
inductive Piece where
  | value (colon : Bool) (v : Value)
  | items (vs : List Value)
  | entry (k v : Value)
  | entries (es : List (Value × Value))

/-- What stands between a mark and a block at a column: behind the colon of a key the block begins
in a new line. -/
def inset (colon : Bool) (column : Nat) : List Char :=
  if colon then '\n' :: spaces column else [' ']

/-- The layout of a document: the characters and the tokens of a part of it. Items and entries
begin at the column, and a value belongs to a block at that column. -/
inductive Laid : Nat → Piece → List Char → List Token → Prop
  | atom {c : Nat} {colon plain : Bool} {v : Value} {text out : List Char} :
    Inscribed (c + 2) text plain out → Means text plain v →
    Laid c (.value colon v) (' ' :: out) [.scalar (String.ofList text) plain]
  | noItems {c : Nat} {colon : Bool} :
    Laid c (.value colon (.list [])) [' ', '[', ']'] [.flowSequenceStart, .flowSequenceEnd]
  | noEntries {c : Nat} {colon : Bool} :
    Laid c (.value colon (.map [])) [' ', '\x7b', '\x7d'] [.flowMappingStart, .flowMappingEnd]
  | loose {c : Nat} {vs : List Value} {out : List Char} {ts : List Token} :
    Laid c (.items vs) out ts → Laid c (.value true (.list vs)) (inset true c ++ out) ts
  | list {c : Nat} {vs : List Value} {out : List Char} {ts : List Token} :
    Laid (c + 2) (.items vs) out ts → Laid c (.value false (.list vs)) (inset false (c + 2) ++ out)
      (.blockSequenceStart :: (ts ++ [.blockEnd]))
  | map {c : Nat} {colon : Bool} {es : List (Value × Value)} {out : List Char} {ts : List Token} :
    Keyed es → Laid (c + 2) (.entries es) out ts →
    Laid c (.value colon (.map es)) (inset colon (c + 2) ++ out)
      (.blockMappingStart :: (ts ++ [.blockEnd]))
  | lastItem {c : Nat} {v : Value} {out : List Char} {ts : List Token} :
    Laid c (.value false v) out ts → Laid c (.items [v]) ('-' :: out) (.blockEntry :: ts)
  | item {c : Nat} {v : Value} {vs : List Value} {out out' : List Char} {ts ts' : List Token} :
    Laid c (.value false v) out ts → Laid c (.items vs) out' ts' →
    Laid c (.items (v :: vs)) ('-' :: (out ++ '\n' :: (spaces c ++ out')))
      (.blockEntry :: (ts ++ ts'))
  | simpleKey {c : Nat} {plain : Bool} {k v : Value} {text out out' : List Char}
    {ts : List Token} : Inscribed (c + 2) text plain out → Means text plain k → '\n' ∉ out →
    out.length ≤ 1000 → Laid c (.value true v) out' ts → Laid c (.entry k v) (out ++ ':' :: out')
      (.key :: .scalar (String.ofList text) plain :: .value :: ts)
  | longKey {c : Nat} {k v : Value} {out out' : List Char} {ts ts' : List Token} :
    Laid c (.value false k) out ts → Laid c (.value false v) out' ts' →
    Laid c (.entry k v) ('?' :: (out ++ '\n' :: (spaces c ++ ':' :: out')))
      (.key :: (ts ++ .value :: ts'))
  | lastEntry {c : Nat} {k v : Value} {out : List Char} {ts : List Token} :
    Laid c (.entry k v) out ts → Laid c (.entries [(k, v)]) out ts
  | entry {c : Nat} {k v : Value} {es : List (Value × Value)} {out out' : List Char}
    {ts ts' : List Token} : Laid c (.entry k v) out ts → Laid c (.entries es) out' ts' →
    Laid c (.entries ((k, v) :: es)) (out ++ '\n' :: (spaces c ++ out')) (ts ++ ts')

section Meaning

theorem means_text (s : String) : Means s.toList (isPlain s.toList) (.text s) := by
  have htag : Parse.scalarTag none (String.ofList s.toList) (isPlain s.toList) = coreTag "str" := by
    cases hp : isPlain s.toList with
    | false => rfl
    | true =>
      simp only [isPlain, Bool.and_eq_true, decide_eq_true_eq] at hp
      simpa [Parse.scalarTag] using hp.1.1
  refine ⟨.str, ?_, by simp, ?_⟩
  · rw [htag]
    decide
  · rw [String.ofList_toList]
    rfl

theorem means_int {m : Int} (hm : m.natAbs < 10 ^ maxDigits) :
    Means (toString m).toList true (.int m) := by
  have hnum := isNumeral_toDigits m.natAbs
  have htag : Parse.scalarTag none (String.ofList (toString m).toList) true = coreTag "int" := by
    rw [String.ofList_toList, Parse.scalarTag, if_pos rfl, toList_toString_int,
      plainTag_signed hnum]
  refine ⟨.int, ?_, by simp, ?_⟩
  · rw [htag]
    decide
  · have hlen : (Nat.toDigits 10 m.natAbs).length ≤ maxDigits := by
      rw [Nat.length_toDigits_le_iff (by decide) (by decide)]
      exact hm
    rw [String.ofList_toList, AtomKind.value, toList_toString_int, intOf_signed hnum hlen,
      Nat.ofDigitChars_ten_toDigits]
    have hvalue : (if decide (m < 0) = true then -(m.natAbs : Int) else m.natAbs) = m := by
      split
      next h =>
        have hneg : m < 0 := by simpa using h
        omega
      next h =>
        have hpos : ¬ m < 0 := by simpa using h
        omega
    rw [hvalue]
    rfl

end Meaning

section Writing

variable {c : Nat} {colon : Bool} {v : Value} {p : Page}

/-- The page ends with a mark of a block at a column: with the colon of a key, or with another mark
that has only indentation and marks before it. -/
structure Page.Marked (p : Page) (column : Nat) (colon : Bool) : Prop where
  afterBlank : p.afterBlank = false
  afterIndent : p.afterIndent = !colon
  column_eq : colon = false → p.column = column + 1

/-- The next line begins at a column, or so does what comes next. -/
structure Page.Begins (p : Page) (column : Nat) : Prop where
  column_eq : p.column = column
  afterBlank : p.afterBlank = true
  afterIndent : p.afterIndent = true

theorem Page.Begins.mark (h : p.Begins c) (d : Char) : (p.mark d false true).Marked c false ∧
    (p.mark d false true).text.toList = p.text.toList ++ [d] := by
  refine ⟨⟨rfl, ?_, fun _ => ?_⟩, ?_⟩
  · simp [Page.mark, Page.put, h.afterIndent]
  · simp [Page.mark, Page.put, h.afterBlank, h.column_eq]
  · simp [Page.mark, Page.put, h.afterBlank]

theorem Page.begins_newLine (h : p.afterIndent = false) : (p.indent c).Begins c ∧
    (p.indent c).text.toList = p.text.toList ++ '\n' :: spaces c := by
  obtain ⟨htext, hcolumn, hblank, hindent⟩ := Page.indent_newLine (n := c) (.inl h)
  exact ⟨⟨hcolumn, hblank, hindent⟩, htext⟩

theorem Page.Marked.begins (h : p.Marked c false) : (p.indent (c + 2)).Begins (c + 2) ∧
    (p.indent (c + 2)).text.toList = p.text.toList ++ [' '] := by
  have hcolumn := h.column_eq rfl
  obtain ⟨htext, hc, hblank, hindent⟩ := Page.indent_sameLine (n := c + 2) h.afterIndent
    (by omega)
  rw [hcolumn] at htext
  refine ⟨⟨hc, hblank, hindent⟩, ?_⟩
  rw [htext, Nat.add_sub_add_left]
  rfl

/-- The block of a map behind a mark. -/
theorem Page.Marked.inset (h : p.Marked c colon) : (p.indent (c + 2)).Begins (c + 2) ∧
    (p.indent (c + 2)).text.toList = p.text.toList ++ inset colon (c + 2) := by
  cases colon with
  | true => exact Page.begins_newLine h.afterIndent
  | false => exact h.begins

/-- Behind a mark, a value is written in the layout of its block. -/
def Lays (c : Nat) (colon : Bool) (v : Value) : Prop :=
  ∀ (inMap : Bool) (p : Page), (colon = true → inMap = true) → p.Marked c colon →
    ∃ out ts, Laid c (.value colon v) out ts ∧
      (write ⟨some c, inMap, false⟩ v p).text.toList = p.text.toList ++ out ∧
      (write ⟨some c, inMap, false⟩ v p).afterIndent = false

theorem lays_text {s : String} (hs : ∀ d ∈ s.toList, IsVisible d) (hc : c + 2 ≤ Page.width) :
    Lays c colon (.text s) := by
  intro inMap p _ hp
  obtain ⟨out, hins, htext, hi, _⟩ := exists_inscribed hs hc false p
  refine ⟨_, _, .atom hins (means_text s), ?_, ?_⟩
  · rw [write, Context.hanging, Option.getD_some, htext, Page.lead, hp.afterBlank]
    rfl
  · rw [write]
    exact hi

theorem write_int (ctx : Context) (m : Int) (p : Page) :
    write ctx (.int m) p = writePlain ctx.hanging (!ctx.isKey) (toString m).toList p := by
  simp [write, atomText]

theorem lays_int {m : Int} (hm : m.natAbs < 10 ^ maxDigits) : Lays c colon (.int m) := by
  intro inMap p _ hp
  have hplain : PlainText (toString m).toList := by
    rw [toList_toString_int]
    exact plainText_signed (isNumeral_toDigits _)
  obtain ⟨out, hwrap, htext, hi, _⟩ := @Phrase.writePlain (c + 2) true _ hplain.phrase p
  refine ⟨_, _, .atom (.plain hplain hwrap) (means_int hm), ?_, ?_⟩
  · rw [write_int, Context.hanging, Option.getD_some, Bool.not_false, htext, Page.lead,
      hp.afterBlank]
    rfl
  · rw [write_int]
    exact hi

theorem lays_noItems : Lays c colon (.list []) := by
  intro inMap p _ hp
  refine ⟨_, _, .noItems, ?_, ?_⟩
  · simp [write, Page.mark, Page.closeMark, Page.put, hp.afterBlank]
  · simp [write, Page.mark, Page.closeMark, Page.put, hp.afterBlank]

theorem lays_noEntries : Lays c colon (.map []) := by
  intro inMap p _ hp
  refine ⟨_, _, .noEntries, ?_, ?_⟩
  · simp [write, Page.mark, Page.closeMark, Page.put, hp.afterBlank]
  · simp [write, Page.mark, Page.closeMark, Page.put, hp.afterBlank]

theorem exists_laid_items {vs : List Value} (hne : vs ≠ []) (hvs : ∀ v ∈ vs, Lays c false v)
    (hp : (p.indent c).Begins c) : ∃ out ts, Laid c (.items vs) out ts ∧
      (writeItems c vs p).text.toList = (p.indent c).text.toList ++ out ∧
      (writeItems c vs p).afterIndent = false := by
  induction vs generalizing p with
  | nil => exact absurd rfl hne
  | cons v vs ih =>
    obtain ⟨hmarked, hmark⟩ := hp.mark '-'
    obtain ⟨out, ts, hlaid, htext, hi⟩ := hvs v List.mem_cons_self false _ (by simp) hmarked
    rw [hmark, List.append_assoc] at htext
    rw [writeItems]
    by_cases hrest : vs = []
    · subst hrest
      rw [writeItems]
      exact ⟨_, _, .lastItem hlaid, htext, hi⟩
    · obtain ⟨hbegins, hline⟩ := Page.begins_newLine (c := c) hi
      obtain ⟨out', ts', hlaid', htext', hi'⟩ := ih hrest
        (fun w hw => hvs w (List.mem_cons_of_mem v hw)) hbegins
      refine ⟨_, _, .item hlaid hlaid', ?_, hi'⟩
      rw [htext', hline, htext]
      simp

/-- A short key and its colon. -/
theorem exists_inscribed_key {s : String} (hs : ∀ d ∈ s.toList, IsVisible d)
    (hc : c + 2 ≤ Page.width) (hsimple : isSimpleKey (.text s) = true) (hp : p.Begins c) :
    ∃ out, Inscribed (c + 2) s.toList (isPlain s.toList) out ∧ '\n' ∉ out ∧ out.length ≤ 1000 ∧
      ((write ⟨some c, true, true⟩ (.text s) p).closeMark ':').Marked c true ∧
      ((write ⟨some c, true, true⟩ (.text s) p).closeMark ':').text.toList =
        p.text.toList ++ (out ++ [':']) := by
  obtain ⟨out, hins, htext, _, hkey⟩ := exists_inscribed hs hc true p
  obtain ⟨hline, hlen⟩ := hkey rfl
  have hshort : s.toList.length < 123 := by
    simp only [isSimpleKey, Bool.and_eq_true, decide_eq_true_eq] at hsimple
    have hadd : 5 + s.length < 128 := hsimple.2
    rw [String.length_toList]
    omega
  refine ⟨out, hins, hline, by omega, ⟨rfl, rfl, by simp⟩, ?_⟩
  rw [Page.closeMark, Page.toList_put, write, Context.hanging, Option.getD_some, htext, Page.lead,
    hp.afterBlank, List.append_assoc]
  rfl

/-- A key that is a visible text is written in the line of its value, or in lines of its own. -/
theorem exists_laid_entry {s : String} {rest : List (Value × Value)}
    (hs : ∀ d ∈ s.toList, IsVisible d) (hc : c + 2 ≤ Page.width) (hv : ∀ colon, Lays c colon v)
    (hp : (p.indent c).Begins c) : ∃ out ts q, Laid c (.entry (.text s) v) out ts ∧
      q.text.toList = (p.indent c).text.toList ++ out ∧ q.afterIndent = false ∧
      writeEntries c ((.text s, v) :: rest) p = writeEntries c rest q := by
  rw [writeEntries]
  by_cases hsimple : isSimpleKey (.text s) = true
  · obtain ⟨out, hins, hline, hlen, hmarked, hkey⟩ := exists_inscribed_key hs hc hsimple hp
    obtain ⟨out', ts, hlaid, htext, hi⟩ := hv true true _ (fun _ => rfl) hmarked
    refine ⟨_, _, _, .simpleKey hins (means_text s) hline hlen hlaid, ?_, hi, ?_⟩
    · rw [htext, hkey]
      simp
    · simp only [hsimple, if_true]
  · obtain ⟨hmarked, hmark⟩ := hp.mark '?'
    obtain ⟨out, ts, hlaid, htext, hi⟩ := @lays_text c false s hs hc true _ (by simp) hmarked
    obtain ⟨hbegins, hnext⟩ := Page.begins_newLine (c := c) hi
    obtain ⟨hmarked', hmark'⟩ := hbegins.mark ':'
    obtain ⟨out', ts', hlaid', htext', hi'⟩ := hv false true _ (by simp) hmarked'
    refine ⟨_, _, _, .longKey hlaid hlaid', ?_, hi', ?_⟩
    · rw [htext', hmark', hnext, htext, hmark]
      simp
    · simp only [hsimple]
      rfl

theorem exists_laid_entries {es : List (Value × Value)} (hne : es ≠ [])
    (hkeys : ∀ e ∈ es, ∃ s, e.1 = .text s ∧ ∀ d ∈ s.toList, IsVisible d)
    (hc : c + 2 ≤ Page.width) (hes : ∀ e ∈ es, ∀ colon, Lays c colon e.2)
    (hp : (p.indent c).Begins c) : ∃ out ts, Laid c (.entries es) out ts ∧
      (writeEntries c es p).text.toList = (p.indent c).text.toList ++ out ∧
      (writeEntries c es p).afterIndent = false := by
  induction es generalizing p with
  | nil => exact absurd rfl hne
  | cons e es ih =>
    obtain ⟨k, v⟩ := e
    obtain ⟨s, rfl, hs⟩ := hkeys _ List.mem_cons_self
    obtain ⟨out, ts, q, hlaid, htext, hi, hwrite⟩ := @exists_laid_entry c v p s es hs hc
      (hes _ List.mem_cons_self) hp
    rw [hwrite]
    by_cases hrest : es = []
    · subst hrest
      rw [writeEntries]
      exact ⟨_, _, .lastEntry hlaid, htext, hi⟩
    · obtain ⟨hbegins, hline⟩ := Page.begins_newLine (c := c) hi
      obtain ⟨out', ts', hlaid', htext', hi'⟩ := ih hrest
        (fun e he => hkeys e (List.mem_cons_of_mem _ he))
        (fun e he => hes e (List.mem_cons_of_mem _ he)) hbegins
      refine ⟨_, _, .entry hlaid hlaid', ?_, hi'⟩
      rw [htext', hline, htext]
      simp

theorem write_list {vs : List Value} (hne : vs ≠ []) (ctx : Context) (p : Page) :
    write ctx (.list vs) p = writeItems
      (if ctx.inMap && !p.afterIndent then ctx.column.getD 0 else ctx.inner) vs p := by
  rw [write]
  exact hne

theorem write_map {es : List (Value × Value)} (hne : es ≠ []) (ctx : Context) (p : Page) :
    write ctx (.map es) p = writeEntries ctx.inner es p := by
  rw [write]
  exact hne

/-- Whatever can be stored is written in the layout, as long as its columns stay within the width
of a line. -/
theorem Storable.lays {n : Nat} (h : Storable n v) (hc : c + 2 * n + 2 ≤ Page.width)
    (colon : Bool) : Lays c colon v := by
  induction h generalizing c colon with
  | text hs => exact lays_text hs (by omega)
  | int hm => exact lays_int hm
  | @list n vs hvs ih =>
    by_cases hne : vs = []
    · subst hne
      exact lays_noItems
    intro inMap p hmap hp
    cases colon with
    | true =>
      obtain ⟨hbegins, hline⟩ := Page.begins_newLine (c := c) hp.afterIndent
      obtain ⟨out, ts, hlaid, htext, hi⟩ := exists_laid_items hne
        (fun v hv => ih v hv (by omega) false) hbegins
      have hwrite : write ⟨some c, inMap, false⟩ (.list vs) p = writeItems c vs p := by
        rw [write_list hne, hmap rfl, hp.afterIndent]
        rfl
      rw [hwrite]
      refine ⟨_, _, .loose hlaid, ?_, hi⟩
      rw [htext, hline, List.append_assoc]
      rfl
    | false =>
      obtain ⟨hbegins, hline⟩ := hp.begins
      obtain ⟨out, ts, hlaid, htext, hi⟩ := exists_laid_items hne
        (fun v hv => ih v hv (by omega) false) hbegins
      have hwrite : write ⟨some c, inMap, false⟩ (.list vs) p = writeItems (c + 2) vs p := by
        rw [write_list hne, hp.afterIndent, Bool.not_false, Bool.not_true, Bool.and_false]
        rfl
      rw [hwrite]
      refine ⟨_, _, .list hlaid, ?_, hi⟩
      rw [htext, hline, List.append_assoc]
      rfl
  | @map n es hkeyed hes ih =>
    by_cases hne : es = []
    · subst hne
      exact lays_noEntries
    intro inMap p hmap hp
    obtain ⟨hbegins, hline⟩ := hp.inset
    obtain ⟨out, ts, hlaid, htext, hi⟩ := exists_laid_entries hne hkeyed.texts (by omega)
      (fun e he colon => ih e he (by omega) colon) hbegins
    rw [write_map hne]
    refine ⟨_, _, .map hkeyed hlaid, ?_, hi⟩
    rw [Context.inner, htext, hline, List.append_assoc]

/-- A map that can be stored is written from the first column on, up to the end of its last
line. -/
theorem Storable.exists_render {n : Nat} {es : List (Value × Value)}
    (h : Storable (n + 1) (.map es)) (hne : es ≠ []) (hn : 2 * n + 2 ≤ Page.width) :
    ∃ out ts, Keyed es ∧ Laid 0 (.entries es) out ts ∧
      (render (.map es)).toList = out ++ ['\n'] := by
  cases h with
  | map hkeyed hes =>
    have hbegins : ((({} : Page)).indent 0).Begins 0 := ⟨rfl, rfl, rfl⟩
    obtain ⟨out, ts, hlaid, htext, hi⟩ := exists_laid_entries hne hkeyed.texts (by omega)
      (fun e he colon => (hes e he).lays (by omega) colon) hbegins
    refine ⟨out, ts, hkeyed, hlaid, ?_⟩
    rw [render, write_map hne, Context.inner, (Page.begins_newLine hi).2, htext]
    rfl

end Writing

end Yaml

end NPlusOne
