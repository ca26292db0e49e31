import NPlusOne.Proofs.YamlScalar
import NPlusOne.Yaml.Scan

namespace NPlusOne

namespace Yaml

section Steps

variable {σ α β : Type} {x : StateT σ (Except Failure) α} {f : α → StateT σ (Except Failure) β}
  {s s' : σ} {a : α}

theorem run_bind_ok (h : x.run s = .ok (a, s')) : (x >>= f).run s = (f a).run s' := by
  rw [StateT.run_bind, h]
  rfl

theorem run_get_bind {f : σ → StateT σ (Except Failure) β} : (get >>= f).run s = (f s).run s := rfl

end Steps

/-- A key that cannot become one any more. -/
def PendingKey.isStale (k : PendingKey) (i : Input) : Bool :=
  k.line ≠ i.line || 1024 < i.index - k.index

namespace Scan

variable {s s' s₀ : ScanState} {t : Token} {ts w : List Token} {b : Bool}

theorem dropKeys_run (p : PendingKey → Bool) (s : ScanState) : (dropKeys p).run s =
    if s.keys.any fun k => p k && k.required then .error .notYaml
    else .ok ((), { s with keys := s.keys.filter (!p ·) }) := by
  rw [dropKeys, run_get_bind]
  split <;> rfl

theorem dropKeys_eq_ok {p : PendingKey → Bool}
    (h : ∀ k ∈ s.keys, p k = true → k.required = false) :
    (dropKeys p).run s = .ok ((), { s with keys := s.keys.filter (!p ·) }) := by
  have hany : s.keys.any (fun k => p k && k.required) = false := by
    simp only [List.any_eq_false, Bool.and_eq_true, not_and, Bool.not_eq_true]
    exact h
  rw [dropKeys_run, hany]
  rfl

theorem dropStaleKeys_run (s : ScanState) :
    dropStaleKeys.run s = (dropKeys (·.isStale s.input)).run s := rfl

theorem needsMore_run (s : ScanState) : needsMore.run s =
    if s.ended then .ok (false, s)
    else if s.waiting.isEmpty then .ok (true, s)
    else do
      let (_, s') ← dropStaleKeys.run s
      return (s'.keys.any (·.token = s'.taken), s') := by
  rw [needsMore, run_get_bind]
  split
  next => rfl
  next =>
    rw [run_get_bind]
    split <;> rfl

/-- To ask again whether more is needed changes nothing. -/
theorem needsMore_again (h : needsMore.run s = .ok (b, s')) :
    needsMore.run s' = .ok (b, s') ∧ s'.input = s.input ∧ s'.ended = s.ended := by
  have hrun := needsMore_run s
  rw [h] at hrun
  split at hrun
  next =>
    cases hrun
    exact ⟨h, rfl, rfl⟩
  next he =>
    split at hrun
    next =>
      cases hrun
      exact ⟨h, rfl, rfl⟩
    next hw =>
      obtain ⟨⟨_, s₁⟩, hdrop, hs₁⟩ := except_bind_eq_ok.mp hrun.symm
      rw [dropStaleKeys_run, dropKeys_run] at hdrop
      split at hdrop
      next => cases hdrop
      next =>
        cases hdrop
        cases hs₁
        refine ⟨?_, rfl, rfl⟩
        rw [needsMore_run, if_neg he, if_neg hw, dropStaleKeys_run, dropKeys_eq_ok]
        · simp [pure, Except.pure, bind, Except.bind, List.filter_filter]
        · intro k hk hstale
          have hfresh := (List.mem_filter.mp hk).2
          simp [hstale] at hfresh

end Scan

/-- What is left to read. -/
def ScanState.weight (s : ScanState) : Nat :=
  s.input.rest.length + if s.ended then 0 else 1

/-- The next token is known. -/
def ScanState.Settled (s : ScanState) : Prop :=
  Scan.needsMore.run s = .ok (false, s)

/-- The state in which the next token is known; the counter of `fill` is large enough. -/
def ScanState.Fills (s s' : ScanState) : Prop :=
  ∀ n, s.weight < n → (Scan.fill n).run s = .ok ((), s')

/-- The state behind the next token. -/
def ScanState.advanced (s : ScanState) : ScanState :=
  { s with waiting := s.waiting.tail, taken := s.taken + 1 }

/-- The tokens that a scan gives, one after the other, up to the end of the document. -/
inductive Streams : ScanState → List Token → Prop
  | nil {s s' : ScanState} : s.Fills s' → s'.Settled → s'.waiting = [] → Streams s []
  | cons {s s' : ScanState} {t : Token} {ts : List Token} : s.Fills s' → s'.Settled →
    s'.waiting.head? = some t → Streams s'.advanced ts → Streams s (t :: ts)

namespace Scan

variable {s s' s₁ : ScanState} {t : Token} {ts w : List Token} {b : Bool}

theorem fills_of_needsMore (h : needsMore.run s = .ok (false, s')) : s.Fills s' := by
  intro n hn
  obtain ⟨n, rfl⟩ := Nat.exists_eq_add_one_of_ne_zero (Nat.ne_zero_of_lt hn)
  rw [fill, run_bind_ok h]
  rfl

theorem fills_of_fetch (h : needsMore.run s = .ok (true, s)) (hf : fetch.run s = .ok ((), s₁))
    (hlt : s₁.weight < s.weight) (hs : s₁.Fills s') : s.Fills s' := by
  intro n hn
  obtain ⟨n, rfl⟩ := Nat.exists_eq_add_one_of_ne_zero (Nat.ne_zero_of_lt hn)
  rw [fill, run_bind_ok h]
  simp only [if_true]
  rw [run_bind_ok hf]
  exact hs n (by omega)

/-- What is asked first decides what `fill` does. -/
theorem fill_congr (h : needsMore.run s = needsMore.run s₁) (n : Nat) :
    (fill (n + 1)).run s = (fill (n + 1)).run s₁ := by
  rw [fill, StateT.run_bind, StateT.run_bind, h]

theorem peek_of_fills (h : s.Fills s') : peek.run s = .ok (s'.waiting.head?, s') := by
  have hfill := h (s.weight + 1) (Nat.lt_succ_self _)
  rw [fill, StateT.run_bind] at hfill
  obtain ⟨⟨b, s₁⟩, hb, hrest⟩ := except_bind_eq_ok.mp hfill
  cases b with
  | false =>
    cases hrest
    rw [peek, run_bind_ok hb]
    rfl
  | true =>
    obtain ⟨hagain, hinput, hended⟩ := needsMore_again hb
    have hlt : s.weight < s₁.input.rest.length + 2 := by
      rw [hinput, ScanState.weight]
      split <;> omega
    have hrun : (fill (s₁.input.rest.length + 2)).run s₁ = .ok ((), s') := by
      rw [fill_congr (hagain.trans hb.symm)]
      exact h _ hlt
    rw [peek, run_bind_ok hb]
    simp only [if_true]
    have hin : input.run s₁ = .ok (s₁.input, s₁) := rfl
    rw [run_bind_ok hin, run_bind_ok hrun]
    rfl

end Scan

/-- The tokens of a scan whose next token is known. -/
structure ScanState.Ready (s : ScanState) (ts : List Token) : Prop where
  settled : s.Settled
  head : s.waiting.head? = ts.head?
  rest : ∀ t ts', ts = t :: ts' → Streams s.advanced ts'

variable {s s' s₁ : ScanState} {t : Token} {ts w : List Token}

theorem Streams.exists_ready (h : Streams s ts) : ∃ s', s.Fills s' ∧ s'.Ready ts := by
  cases h with
  | nil hfills hset hw => exact ⟨_, hfills, hset, by simp [hw], by simp⟩
  | cons hfills hset hw hrest =>
    refine ⟨_, hfills, hset, hw, ?_⟩
    rintro _ _ ⟨⟩
    exact hrest

theorem ScanState.Ready.streams (h : s.Ready ts) : Streams s ts := by
  have hfills := Scan.fills_of_needsMore h.settled
  cases ts with
  | nil => exact .nil hfills h.settled (by simpa using h.head)
  | cons t ts => exact .cons hfills h.settled h.head (h.rest t ts rfl)

theorem Streams.peek (h : Streams s ts) :
    ∃ s', Scan.peek.run s = .ok (ts.head?, s') ∧ s'.Ready ts := by
  obtain ⟨s', hfills, hready⟩ := h.exists_ready
  refine ⟨s', ?_, hready⟩
  rw [Scan.peek_of_fills hfills, hready.head]

theorem ScanState.Ready.drop (h : s.Ready (t :: ts)) :
    ∃ s', Scan.drop.run s = .ok ((), s') ∧ Streams s' ts :=
  ⟨_, rfl, h.rest t ts rfl⟩

/-- One step of reading on. -/
theorem Streams.of_fetch (hm : Scan.needsMore.run s = .ok (true, s))
    (hf : Scan.fetch.run s = .ok ((), s₁)) (hlt : s₁.weight < s.weight) (h : Streams s₁ ts) :
    Streams s ts := by
  cases h with
  | nil hfills hset hw => exact .nil (Scan.fills_of_fetch hm hf hlt hfills) hset hw
  | cons hfills hset hw hrest => exact .cons (Scan.fills_of_fetch hm hf hlt hfills) hset hw hrest

/-- What is asked first decides what comes. -/
theorem Streams.congr (hm : Scan.needsMore.run s = Scan.needsMore.run s₁)
    (hw : s.weight = s₁.weight) (h : Streams s₁ ts) : Streams s ts := by
  have hfill : ∀ {s'}, s₁.Fills s' → s.Fills s' := by
    intro s' hfills n hn
    obtain ⟨n, rfl⟩ := Nat.exists_eq_add_one_of_ne_zero (Nat.ne_zero_of_lt hn)
    rw [Scan.fill_congr hm]
    exact hfills _ (hw ▸ hn)
  cases h with
  | nil hfills hset hw => exact .nil (hfill hfills) hset hw
  | cons hfills hset hw hrest => exact .cons (hfill hfills) hset hw hrest

/-- The indentation of the open blocks, the innermost first. -/
structure Blocks where
  indent : Int
  indents : List Int

namespace Blocks

def push (b : Blocks) (column : Nat) : Blocks :=
  ⟨column, b.indent :: b.indents⟩

/-- A scan outside of brackets. -/
abbrev scan (b : Blocks) (i : Input) (allowed : Bool) (w : List Token) (k : Nat)
    (keys : List PendingKey) : ScanState :=
  { input := i, waiting := w, taken := k, indent := b.indent, indents := b.indents
    keyAllowed := allowed, keys := keys }

/-- How many blocks end before a column, and which stay open. -/
inductive Closes (column : Int) : Blocks → Nat → Blocks → Prop
  | stay {b : Blocks} : b.indent ≤ column → Closes column b 0 b
  | close {b b' : Blocks} {c n : Nat} : column < c → Closes column b n b' →
    Closes column (b.push c) (n + 1) b'

variable {b b' : Blocks} {i : Input} {allowed : Bool} {w : List Token} {k n : Nat}
  {keys : List PendingKey} {column : Int}

theorem Closes.takeWhile (h : Closes column b n b') :
    ((b.indent :: b.indents).takeWhile (column < ·)).length = n ∧
      (b.indent :: b.indents).drop n = b'.indent :: b'.indents := by
  induction h with
  | stay hle => simp [Int.not_lt.mpr hle]
  | close hlt _ ih => simpa [push, hlt] using ih

theorem closeBlocks_run (h : Closes column b n b') :
    (Scan.closeBlocks column).run (b.scan i allowed w k keys) =
      .ok ((), b'.scan i allowed (w ++ List.replicate n .blockEnd) k keys) := by
  obtain ⟨hlen, hdrop⟩ := h.takeWhile
  rw [Scan.closeBlocks, run_get_bind]
  simp only [hlen, hdrop, List.map_const', if_true]
  rfl

end Blocks

open Scan

variable {b b' : Blocks} {i j : Input} {allowed : Bool} {w ts u : List Token} {t : Token}
  {k n m : Nat} {keys : List PendingKey} {r : List Char}

section Approach

theorem Starts.peek (h : Starts r) {i l c : Nat} : isBreak (⟨r, i, l, c⟩ : Input).peek = false ∧
    (⟨r, i, l, c⟩ : Input).peek ≠ '#' := by
  refine ⟨isBreak_peek h.not_endsWord, ?_⟩
  cases r with
  | nil => simp [Input.peek, endMark]
  | cons d r =>
    rintro rfl
    exact h.notComment rfl

theorem skipSpaces_eq (h : Starts r) {i l c : Nat} :
    (⟨spaces m ++ r, i, l, c⟩ : Input).skipSpaces = ⟨r, i + m, l, c + m⟩ := by
  have hspan := @Input.span_append (spaces m) r i l c (· = ' ') (fun _ => visible_of_mem_spaces)
    (fun d hd => by simp [List.eq_of_mem_replicate hd])
    (fun d hd => (Bool.or_eq_false_iff.mp (not_blank_of_not_endsWord h.not_endsWord d hd)).1)
  rw [Input.skipSpaces, hspan, List.length_replicate]

/-- Blanks before a token. -/
theorem skipToToken_spaces (h : Starts r) (s : ScanState) {i l c : Nat} (n : Nat) :
    (skipToToken (n + 1)).run { s with input := ⟨spaces m ++ r, i, l, c⟩ } =
      .ok ((), { s with input := ⟨r, i + m, l, c + m⟩ }) := by
  rw [skipToToken, run_bind_ok rfl]
  simp only [skipSpaces_eq h, h.peek, if_false]
  rw [run_bind_ok rfl]
  rfl

/-- A line break and blanks before a token. -/
theorem skipToToken_newLine (h : Starts r) {i l c : Nat} (n : Nat) :
    (skipToToken (n + 2)).run (b.scan ⟨'\n' :: (spaces m ++ r), i, l, c⟩ allowed w k keys) =
      .ok ((), b.scan ⟨r, i + 1 + m, l + 1, m⟩ true w k keys) := by
  have hrest := @skipToToken_spaces m r h (b.scan ⟨r, i, l, c⟩ true w k keys) (i + 1) (l + 1) 0 n
  rw [Nat.zero_add] at hrest
  rw [skipToToken, run_bind_ok rfl]
  exact hrest

/-- The way to a token in the same line. -/
theorem approach_spaces (h : Starts r) {i l c : Nat} (hb : Blocks.Closes (c + m : Nat) b n b')
    (hk : ∀ κ ∈ keys, κ.isStale ⟨r, i + m, l, c + m⟩ = false) :
    approach.run (b.scan ⟨spaces m ++ r, i, l, c⟩ allowed w k keys) =
      .ok ((), b'.scan ⟨r, i + m, l, c + m⟩ allowed (w ++ List.replicate n .blockEnd) k keys) := by
  have hkeys : keys.filter (!PendingKey.isStale · ⟨r, i + m, l, c + m⟩) = keys := by
    rw [List.filter_eq_self]
    intro κ hκ
    simp [hk κ hκ]
  have hdrop : dropStaleKeys.run (b.scan ⟨r, i + m, l, c + m⟩ allowed w k keys) =
      .ok ((), b.scan ⟨r, i + m, l, c + m⟩ allowed w k keys) := by
    rw [dropStaleKeys_run, dropKeys_eq_ok fun κ hκ hstale => ?_, hkeys]
    rw [hk κ hκ] at hstale
    cases hstale
  have hskip := @skipToToken_spaces m r h (b.scan ⟨r, i, l, c⟩ allowed w k keys) i l c
    (spaces m ++ r).length
  rw [approach, run_bind_ok rfl, run_bind_ok hskip, run_bind_ok hdrop, run_bind_ok rfl]
  exact Blocks.closeBlocks_run hb

/-- The way to a token in a later line: keys that were possible before are possible no more. -/
theorem approach_later {i : Input} {l c : Nat} (hb : Blocks.Closes (c : Nat) b n b')
    (hs : ∃ e, (skipToToken (i.rest.length + 1)).run (b.scan i allowed w k keys) =
      .ok ((), b.scan ⟨r, e, l, c⟩ true w k keys))
    (hk : ∀ κ ∈ keys, κ.required = false ∧ κ.line < l) :
    ∃ e, approach.run (b.scan i allowed w k keys) =
      .ok ((), b'.scan ⟨r, e, l, c⟩ true (w ++ List.replicate n .blockEnd) k []) := by
  obtain ⟨e, hskip⟩ := hs
  have hkeys : keys.filter (!PendingKey.isStale · ⟨r, e, l, c⟩) = [] := by
    rw [List.filter_eq_nil_iff]
    intro κ hκ
    have hline := (hk κ hκ).2
    simp [PendingKey.isStale, Nat.ne_of_lt hline]
  have hdrop : dropStaleKeys.run (b.scan ⟨r, e, l, c⟩ true w k keys) =
      .ok ((), b.scan ⟨r, e, l, c⟩ true w k []) := by
    rw [dropStaleKeys_run, dropKeys_eq_ok fun κ hκ _ => (hk κ hκ).1, hkeys]
  refine ⟨e, ?_⟩
  rw [approach, run_bind_ok rfl, run_bind_ok hskip, run_bind_ok hdrop, run_bind_ok rfl]
  exact Blocks.closeBlocks_run hb

end Approach

section Delivery

variable {s : ScanState}

theorem needsMore_fresh (he : s.ended = false) (hw : s.waiting ≠ [])
    (hk : ∀ κ ∈ s.keys, κ.isStale s.input = false) :
    needsMore.run s = .ok (s.keys.any (·.token = s.taken), s) := by
  have hkeys : s.keys.filter (!PendingKey.isStale · s.input) = s.keys := by
    rw [List.filter_eq_self]
    intro κ hκ
    simp [hk κ hκ]
  have hsome : s.waiting.isEmpty = false := by simpa using hw
  rw [needsMore_run, he, hsome, dropStaleKeys_run, dropKeys_eq_ok fun κ hκ hstale => ?_, hkeys]
  · rfl
  · rw [hk κ hκ] at hstale
    cases hstale

theorem needsMore_empty (he : s.ended = false) (hw : s.waiting = []) :
    needsMore.run s = .ok (true, s) := by
  rw [needsMore_run, he, hw]
  rfl

/-- The tokens before a possible key are given as they are. -/
theorem Streams.deliver (he : s.ended = false) (hw : s.waiting = w ++ u)
    (hk : ∀ κ ∈ s.keys, κ.isStale s.input = false ∧ s.taken + w.length ≤ κ.token)
    (h : Streams { s with waiting := u, taken := s.taken + w.length } ts) :
    Streams s (w ++ ts) := by
  induction w generalizing s with
  | nil =>
    rw [List.nil_append] at hw
    subst hw
    exact h
  | cons t w ih =>
    have hnone : s.keys.any (·.token = s.taken) = false := by
      rw [List.any_eq_false]
      intro κ hκ
      have hle := (hk κ hκ).2
      rw [List.length_cons] at hle
      simp only [decide_eq_true_eq]
      omega
    have hset : s.Settled := by
      rw [ScanState.Settled, needsMore_fresh he (by simp [hw]) fun κ hκ => (hk κ hκ).1, hnone]
    refine .cons (fills_of_needsMore hset) hset (by simp [hw]) (ih he ?_ ?_ ?_)
    · simp [ScanState.advanced, hw]
    · intro κ hκ
      refine ⟨(hk κ hκ).1, ?_⟩
      have hle := (hk κ hκ).2
      simp only [ScanState.advanced, List.length_cons] at hle ⊢
      omega
    · simpa [ScanState.advanced, Nat.add_assoc, Nat.add_comm 1] using h

/-- A possible key that has become impossible does not count. -/
theorem Streams.prune (he : s.ended = false) (hw : s.waiting ≠ [])
    (hk : ∀ κ ∈ s.keys, κ.isStale s.input = true ∧ κ.required = false)
    (h : Streams { s with keys := [] } ts) : Streams s ts := by
  refine Streams.congr ?_ ?_ h
  case refine_2 => rfl
  have hsome : s.waiting.isEmpty = false := by simpa using hw
  have hkeys : s.keys.filter (!PendingKey.isStale · s.input) = [] := by
    rw [List.filter_eq_nil_iff]
    intro κ hκ
    simp [(hk κ hκ).1]
  rw [needsMore_run, needsMore_run, dropStaleKeys_run, dropStaleKeys_run,
    dropKeys_eq_ok fun κ hκ _ => (hk κ hκ).2, dropKeys_eq_ok (by simp), hkeys]
  simp [he, hsome, bind, Except.bind]

end Delivery

/-- Reads one token, or the end of the document, from where it begins. -/
def Scan.read : Scan Unit := do
  if (← input).rest.isEmpty then finish else token

theorem fetch_run {s s' : ScanState} (h : approach.run s = .ok ((), s')) :
    fetch.run s = Scan.read.run s' := by
  rw [fetch, run_bind_ok h]
  rfl

/-- From a token at a column on, whatever waits to be taken, a scan gives these tokens. -/
def Reads (text : List Char) (column : Nat) (b : Blocks) (allowed : Bool) (ts : List Token) :
    Prop :=
  ∀ i l w k, ∃ s', Scan.read.run (b.scan ⟨text, i, l, column⟩ allowed w k []) = .ok ((), s') ∧
    s'.weight ≤ text.length ∧ Streams s' (w ++ ts)

section Arrival

variable {s : ScanState} {allowed' : Bool}

theorem streams_of_read (hm : needsMore.run s = .ok (true, s)) {l c : Nat}
    (ha : ∃ e, approach.run s = .ok ((), b'.scan ⟨r, e, l, c⟩ allowed' w k []))
    (hlen : r.length < s.weight) (hr : Reads r c b' allowed' ts) : Streams s (w ++ ts) := by
  obtain ⟨e, ha⟩ := ha
  obtain ⟨s', hread, hweight, h⟩ := hr e l w k
  exact h.of_fetch hm ((fetch_run ha).trans hread) (by omega)

/-- Tokens were read, the first of `u` may be a key, and the next one stands in a later line. -/
theorem streams_of_later {l c : Nat} {key : Option PendingKey} (hlen : r.length ≤ i.rest.length)
    (hr : Reads r c b' true ts)
    (hkey : ∀ κ ∈ key, u ≠ [] ∧ κ.token = k + w.length ∧ κ.required = false)
    (hmove : ∀ w k keys, (∀ κ ∈ keys, κ ∈ key) → ∃ e, approach.run (b.scan i allowed w k keys) =
      .ok ((), b'.scan ⟨r, e, l, c⟩ true (w ++ List.replicate n .blockEnd) k [])) :
    Streams (b.scan i allowed (w ++ u) k key.toList)
      (w ++ (u ++ (List.replicate n .blockEnd ++ ts))) := by
  have hfree : Streams (b.scan i allowed (w ++ u) k [])
      (w ++ (u ++ (List.replicate n .blockEnd ++ ts))) := by
    rw [← List.append_assoc]
    refine Streams.deliver rfl (List.append_nil _).symm (by simp) ?_
    exact streams_of_read (needsMore_empty rfl rfl) (hmove _ _ [] (by simp))
      (Nat.lt_succ_of_le hlen) hr
  cases key with
  | none => exact hfree
  | some κ =>
    obtain ⟨hu, htoken, hrequired⟩ := hkey κ rfl
    cases hstale : κ.isStale i with
    | true => exact hfree.prune rfl (by simp [hu]) (by simp [hstale, hrequired])
    | false =>
      refine Streams.deliver rfl rfl (by simp [hstale, htoken]) ?_
      rw [← List.append_assoc]
      refine streams_of_read ?_ (hmove _ _ _ (by simp)) (Nat.lt_succ_of_le hlen) hr
      rw [needsMore_fresh rfl hu (by simp [hstale])]
      simp [htoken]

end Arrival

/-- From the text of a line at a column on, a scan ends the blocks before it and gives these
tokens. -/
inductive Lands (r : List Char) (column : Nat) : Blocks → List Token → Prop
  | stay {b : Blocks} {ts : List Token} : b.indent ≤ column → Reads r column b true ts →
    Lands r column b ts
  | close {b : Blocks} {ts : List Token} {c : Nat} : column < c → Lands r column b ts →
    Lands r column (b.push c) (.blockEnd :: ts)

section Landing

variable {l c e : Nat}

theorem Lands.exists_closes (h : Lands r m b ts) : ∃ n b' ts',
    Blocks.Closes m b n b' ∧ ts = List.replicate n .blockEnd ++ ts' ∧ Reads r m b' true ts' := by
  induction h with
  | stay hle hr => exact ⟨0, _, _, .stay hle, rfl, hr⟩
  | close hlt _ ih =>
    obtain ⟨n, b', ts', hc, rfl, hr⟩ := ih
    exact ⟨n + 1, b', ts', .close (by exact_mod_cast hlt) hc, rfl, hr⟩

/-- The line ends behind the tokens that were read; the first of `u` may be a key. -/
theorem Lands.newLine (h : Lands r m b ts) (hs : Starts r) (key : Option PendingKey)
    (hkey : ∀ κ ∈ key, u ≠ [] ∧ κ.token = k + w.length ∧ κ.required = false ∧ κ.line ≤ l) :
    Streams (b.scan ⟨'\n' :: (spaces m ++ r), e, l, c⟩ allowed (w ++ u) k key.toList)
      (w ++ (u ++ ts)) := by
  obtain ⟨n, b', ts', hclose, rfl, hr⟩ := h.exists_closes
  refine streams_of_later (l := l + 1) (by simp; omega) hr (fun κ hκ => ?_) fun w k keys hkeys => ?_
  · obtain ⟨hu, htoken, hrequired, _⟩ := hkey κ hκ
    exact ⟨hu, htoken, hrequired⟩
  · refine approach_later hclose ⟨_, skipToToken_newLine hs _⟩ fun κ hκ => ?_
    obtain ⟨_, _, hrequired, hline⟩ := hkey κ (hkeys κ hκ)
    exact ⟨hrequired, Nat.lt_succ_of_le hline⟩

/-- With the tokens that were read, the end of their line was read too. -/
theorem Lands.arrived (h : Lands r m b ts) (hs : Starts r) (key : Option PendingKey)
    (hkey : ∀ κ ∈ key, u ≠ [] ∧ κ.token = k + w.length ∧ κ.required = false ∧ κ.line < l) :
    Streams (b.scan ⟨r, e, l, m⟩ true (w ++ u) k key.toList) (w ++ (u ++ ts)) := by
  obtain ⟨n, b', ts', hclose, rfl, hr⟩ := h.exists_closes
  refine streams_of_later (l := l) (Nat.le_refl _) hr (fun κ hκ => ?_) fun w k keys hkeys => ?_
  · obtain ⟨hu, htoken, hrequired, _⟩ := hkey κ hκ
    exact ⟨hu, htoken, hrequired⟩
  · refine approach_later hclose ⟨e, ?_⟩ fun κ hκ => ?_
    · exact @skipToToken_spaces 0 r hs (b.scan ⟨r, e, l, m⟩ true w k keys) e l m _
    · obtain ⟨_, _, hrequired, hline⟩ := hkey κ (hkeys κ hκ)
      exact ⟨hrequired, hline⟩

/-- Behind a token, whatever waits to be taken, a scan gives these tokens. -/
def Goes (text : List Char) (column : Nat) (b : Blocks) (allowed : Bool) (ts : List Token) : Prop :=
  ∀ i l w k, Streams (b.scan ⟨text, i, l, column⟩ allowed w k []) (w ++ ts)

theorem Lands.goes (h : Lands r m b ts) (hs : Starts r) :
    Goes ('\n' :: (spaces m ++ r)) c b allowed ts := by
  intro e l w k
  have hnext := @Lands.newLine b allowed w ts [] k m r l c e h hs none (by simp)
  rwa [List.append_nil] at hnext

theorem goes_space (hr : Reads r (c + 1) b allowed ts) (hs : Starts r) (hb : b.indent ≤ c + 1) :
    Goes (' ' :: r) c b allowed ts := by
  intro e l w k
  refine Streams.deliver rfl (List.append_nil _).symm (by simp) ?_
  have happroach := @approach_spaces b b allowed [] (k + w.length) 0 1 [] r hs e l c (.stay hb)
    (by simp)
  refine streams_of_read (needsMore_empty rfl rfl) ⟨_, happroach⟩ ?_ hr
  change r.length < r.length + 1 + 1
  omega

end Landing

end Yaml

end NPlusOne
