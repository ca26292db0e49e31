import NPlusOne.Proofs.YamlTokens

namespace NPlusOne

namespace Yaml

open Scan

variable {c : Nat} {piece : Piece} {out x : List Char} {ts : List Token}

/-- How a part begins: a value with a blank or the end of a line, all else with a token. -/
def Piece.Begins : Piece → List Char → Prop
  | .value _ _, out => out ≠ [] ∧ endsWord (out.headD endMark) = true
  | _, out => ∀ x : List Char, (∀ d ∈ x.head?, d ≠ '-' ∧ d ≠ '.') → Starts (out ++ x)

theorem Laid.begins (h : Laid c piece out ts) : piece.Begins out := by
  have hitem : ∀ {out : List Char}, out ≠ [] → endsWord (out.headD endMark) = true →
      ∀ x, Starts ('-' :: out ++ x) := by
    intro out hne hhead x
    obtain ⟨d, out, rfl⟩ := List.exists_cons_of_ne_nil hne
    have hd : d ≠ '-' := by
      rintro rfl
      cases hhead
    constructor <;> simp [IsVisible, hd]
  induction h with
  | atom | noItems | noEntries | list => exact ⟨by simp [inset], rfl⟩
  | loose => exact ⟨by simp [inset], rfl⟩
  | @map _ colon =>
    cases colon <;> exact ⟨by simp [inset], rfl⟩
  | lastItem _ ih => exact fun x _ => hitem ih.1 ih.2 x
  | item _ _ ih _ =>
    intro x _
    have h := hitem ih.1 ih.2
    simpa using h _
  | simpleKey hins =>
    intro x _
    rw [List.append_assoc]
    exact hins.starts (by simp)
  | longKey =>
    intro x _
    constructor <;> simp [IsVisible]
  | lastEntry _ ih => exact ih
  | entry _ _ ih _ =>
    intro x _
    rw [List.append_assoc]
    exact ih _ (by simp)

/-- The token that begins the block of a part. -/
def Piece.start : Piece → Token
  | .items _ => .blockSequenceStart
  | _ => .blockMappingStart

/-- The tokens of a part are given by a scan that goes on in a line indented no deeper. -/
def Piece.Scanned (c : Nat) : Piece → List Char → List Token → Prop
  | .value colon _, out, ts => ∀ (b : Blocks) (column m : Nat) (r : List Char) (ts' : List Token),
    b.indent = c → c < column → (colon = false → column = c + 1) → Lands r m b ts' → Starts r →
    m ≤ c → Goes (out ++ '\n' :: (spaces m ++ r)) column b (!colon) (ts ++ ts')
  | piece, out, ts => ∀ (b b' : Blocks) (lead : List Token) (m : Nat) (r : List Char)
    (ts' : List Token), b.Opens c piece.start b' lead → Lands r m b' ts' → Starts r → m ≤ c →
    Reads (out ++ '\n' :: (spaces m ++ r)) c b true (lead ++ (ts ++ ts'))

theorem Blocks.Opens.indent_eq {b b' : Blocks} {t : Token} {lead : List Token}
    (h : b.Opens c t b' lead) : b'.indent = c := by
  cases h with
  | new => rfl
  | same heq => exact heq

theorem endsWord_append {x : List Char} (h : out ≠ [] ∧ endsWord (out.headD endMark) = true) :
    endsWord ((out ++ x).headD endMark) = true := by
  obtain ⟨d, out, rfl⟩ := List.exists_cons_of_ne_nil h.1
  exact h.2

theorem goes_inset {colon : Bool} {b : Blocks} {column : Nat} {r : List Char} {ts : List Token}
    (hb : b.indent = c) (hcolumn : colon = false → column = c + 1) (hs : Starts r)
    (hr : Reads r (c + 2) b true ts) : Goes (inset colon (c + 2) ++ r) column b (!colon) ts := by
  cases colon with
  | true =>
    rw [inset, if_pos rfl, List.cons_append]
    exact (Lands.stay (by omega) hr).goes hs
  | false =>
    obtain rfl := hcolumn rfl
    exact goes_space hr hs (by omega)

/-- Whatever is laid out is scanned into its tokens. -/
theorem Laid.scanned (h : Laid c piece out ts) : piece.Scanned c out ts := by
  induction h with
  | atom hins =>
    intro b column m r ts' hb hc _ hl hs hm
    exact goes_space (hins.reads hl hs (by omega) (by push_cast; omega) (by push_cast; omega))
      (hins.starts (by simp)) (by omega)
  | noItems =>
    intro b column m r ts' hb hc _ hl hs hm
    exact goes_space (Brackets.square.reads hl hs (by push_cast; omega))
      (Brackets.square.starts _).1 (by omega)
  | noEntries =>
    intro b column m r ts' hb hc _ hl hs hm
    exact goes_space (Brackets.curly.reads hl hs (by push_cast; omega)) (Brackets.curly.starts _).1
      (by omega)
  | loose h ih =>
    intro b column m r ts' hb hc _ hl hs hm
    have hr := ih b b [] m r ts' (.same hb) hl hs hm
    rw [List.nil_append] at hr
    have hstarts := h.begins ('\n' :: (spaces m ++ r)) (by simp)
    rw [inset, if_pos rfl, List.append_assoc]
    exact (Lands.stay (Int.le_of_eq hb) hr).goes hstarts
  | list h ih =>
    intro b column m r ts' hb hc hcolumn hl hs hm
    have hr := ih b _ _ m r _ (.new (by push_cast; omega)) (.close (by omega) hl) hs (by omega)
    have hgoes := goes_inset hb hcolumn (h.begins _ (by simp)) hr
    simpa [Piece.start] using hgoes
  | map _ h ih =>
    intro b column m r ts' hb hc hcolumn hl hs hm
    have hr := ih b _ _ m r _ (.new (by push_cast; omega)) (.close (by omega) hl) hs (by omega)
    have hgoes := goes_inset hb hcolumn (h.begins _ (by simp)) hr
    simpa [Piece.start] using hgoes
  | @lastItem c v out ts h ih =>
    intro b b' lead m r ts' ho hl hs hm
    have hg := ih b' (c + 1) m r ts' ho.indent_eq (by omega) (fun _ => rfl) hl hs hm
    exact reads_lead .item ho (endsWord_append h.begins) hg
  | @item c v vs out out' ts ts₁ h h' ih ih' =>
    intro b b' lead m r ts' ho hl hs hm
    have hr := ih' b' b' [] m r ts' (.same ho.indent_eq) hl hs hm
    have hg := ih b' (c + 1) c _ _ ho.indent_eq (by omega) (fun _ => rfl)
      (.stay (Int.le_of_eq ho.indent_eq) hr) (h'.begins _ (by simp)) (Nat.le_refl c)
    have hreads := reads_lead .item ho (endsWord_append h.begins) hg
    simpa using hreads
  | @simpleKey c plain k v text out out' ts hins _ hno hlen h ih =>
    intro b b' lead m r ts' ho hl hs hm
    have hg := ih b' (c + out.length + 1) m r ts' ho.indent_eq (by omega) (by simp) hl hs hm
    have hreads := hins.reads_key hno hlen (by omega) ho (endsWord_append h.begins) hg
    simpa using hreads
  | @longKey c k v out out' ts ts₁ h h' ih ih' =>
    intro b b' lead m r ts' ho hl hs hm
    have hg' := ih' b' (c + 1) m r ts' ho.indent_eq (by omega) (fun _ => rfl) hl hs hm
    have hr := reads_longValue ho.indent_eq (endsWord_append h'.begins) hg'
    have hcolon : ∀ x, Starts (':' :: x) := by
      intro x
      constructor <;> simp [IsVisible]
    have hg := ih b' (c + 1) c _ _ ho.indent_eq (by omega) (fun _ => rfl)
      (.stay (Int.le_of_eq ho.indent_eq) hr) (hcolon _) (Nat.le_refl c)
    have hreads := reads_lead .key ho (endsWord_append h.begins) hg
    simpa using hreads
  | lastEntry _ ih => exact ih
  | @entry c k v es out out' ts ts₁ h h' ih ih' =>
    intro b b' lead m r ts' ho hl hs hm
    have hr := ih' b' b' [] m r ts' (.same ho.indent_eq) hl hs hm
    have hreads := ih b b' lead c _ _ ho (.stay (Int.le_of_eq ho.indent_eq) hr)
      (h'.begins _ (by simp)) (Nat.le_refl c)
    simpa using hreads

section Document

/-- At the end of the document, what waits is all that comes. -/
theorem streams_ended {s : ScanState} (he : s.ended = true) (hw : s.waiting = ts) :
    Streams s ts := by
  have hset : ∀ {s : ScanState}, s.ended = true → s.Settled := by
    intro s he
    rw [ScanState.Settled, needsMore_run, if_pos he]
  induction ts generalizing s with
  | nil => exact .nil (fills_of_needsMore (hset he)) (hset he) hw
  | cons t ts ih =>
    refine .cons (fills_of_needsMore (hset he)) (hset he) (by simp [hw]) (ih he ?_)
    simp [ScanState.advanced, hw]

/-- Before any block is open. -/
abbrev Blocks.none : Blocks := ⟨-1, []⟩

theorem reads_end : Reads [] 0 (Blocks.none.push 0) true [.blockEnd] := by
  intro i l w k
  have hclose : Blocks.Closes (-1) (Blocks.none.push 0) 1 Blocks.none :=
    .close (by decide) (.stay (by decide))
  have hrun : Scan.read.run ((Blocks.none.push 0).scan ⟨[], i, l, 0⟩ true w k []) =
      .ok ((), { Blocks.none.scan ⟨[], i, l, 0⟩ true (w ++ [.blockEnd]) k [] with
        ended := true }) := by
    have hfinish : Scan.read.run ((Blocks.none.push 0).scan ⟨[], i, l, 0⟩ true w k []) =
      finish.run ((Blocks.none.push 0).scan ⟨[], i, l, 0⟩ true w k []) := rfl
    rw [hfinish, finish, run_bind_ok (Blocks.closeBlocks_run hclose)]
    rfl
  exact ⟨_, hrun, by simp [ScanState.weight], streams_ended rfl rfl⟩

/-- A document that is laid out is scanned into its tokens. -/
theorem Laid.streams {es : List (Value × Value)} (h : Laid 0 (.entries es) out ts) :
    Streams (Blocks.none.scan ⟨out ++ ['\n'], 0, 0, 0⟩ true [] 0 [])
      (.blockMappingStart :: (ts ++ [.blockEnd])) := by
  have hnil : Starts [] := by constructor <;> simp
  have hreads := h.scanned Blocks.none (Blocks.none.push 0) [.blockMappingStart] 0 [] [.blockEnd]
    (.new (by decide)) (.stay (by decide) reads_end) hnil (Nat.le_refl 0)
  have hstarts := h.begins ['\n'] (by simp)
  have happroach := @approach_spaces Blocks.none Blocks.none true [] 0 0 0 [] (out ++ ['\n'])
    hstarts 0 0 0 (.stay (by decide)) (by simp)
  exact streams_of_read (needsMore_empty rfl rfl) ⟨_, happroach⟩ (by simp [ScanState.weight]) hreads

end Document

end Yaml

end NPlusOne
