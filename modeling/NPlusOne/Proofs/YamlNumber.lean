import Mathlib.Data.List.TakeWhile
import Mathlib.Data.Nat.Digits.Lemmas
import NPlusOne.Proofs.PathNormal
import NPlusOne.Proofs.YamlPage
import NPlusOne.Yaml.Atom

namespace NPlusOne

/-- A row of digits as numbers are written: a zero stands in front only alone. -/
structure IsNumeral (ds : List Char) : Prop where
  nonempty : ds ≠ []
  digits : ∀ c ∈ ds, c.isDigit = true
  leading : ds.head? = some '0' → ds = ['0']

theorem head?_toDigits (n : Nat) (h : (Nat.toDigits 10 n).head? = some '0') : n = 0 := by
  induction n using Nat.strongRecOn with
  | ind n ih =>
    rw [Nat.toDigits_eq_if (by decide)] at h
    split at h
    next hlt =>
      have hzero : Nat.digitChar n = '0' := by simpa using h
      exact Nat.digitChar_eq_zero.mp hzero
    next hge =>
      have hhead : (Nat.toDigits 10 (n / 10)).head? = some '0' := by
        obtain ⟨c, rest, heq⟩ :=
          List.exists_cons_of_ne_nil (Nat.toDigits_ne_nil (n := n / 10) (b := 10))
        rw [heq] at h ⊢
        exact h
      have hsmall := ih (n / 10) (by omega) hhead
      omega

theorem isNumeral_toDigits (n : Nat) : IsNumeral (Nat.toDigits 10 n) where
  nonempty := Nat.toDigits_ne_nil
  digits c hc := Nat.isDigit_of_mem_toDigits (by decide) (by decide) hc
  leading h := by
    rw [head?_toDigits n h]
    rfl

/-- The digits of a number, behind a minus sign if it is negative. -/
def signed (negative : Bool) (ds : List Char) : List Char :=
  if negative then '-' :: ds else ds

theorem toList_toString_int (n : Int) :
    (toString n).toList = signed (n < 0) (Nat.toDigits 10 n.natAbs) := by
  cases n with
  | ofNat n => simp [toString, Int.repr, Nat.repr_eq_ofList_toDigits, signed]
  | negSucc n => simp [toString, Int.repr, Nat.repr_eq_ofList_toDigits, signed]

/-- Digits lie between zero and nine. -/
theorem digit_bounds {c : Char} (h : c.isDigit = true) : 48 ≤ c.toNat ∧ c.toNat ≤ 57 := by
  simp only [Char.isDigit, Bool.and_eq_true, decide_eq_true_eq] at h
  exact h

theorem ne_of_isDigit {c d : Char} (h : c.isDigit = true) (hd : d.isDigit = false) : c ≠ d := by
  rintro rfl
  rw [h] at hd
  cases hd

namespace Numeral

variable {ds : List Char}

theorem hexValue?_digit {c : Char} (h : c.isDigit = true) : hexValue? c = some (c.toNat - 48) := by
  have hrange : ('0' ≤ c && c ≤ '9') = true := by
    simp only [Bool.and_eq_true, decide_eq_true_eq]
    exact digit_bounds h
  rw [hexValue?, if_pos hrange]

theorem natural_eq (h : ∀ c ∈ ds, c.isDigit = true) : natural 10 ds = Nat.ofDigitChars 10 ds 0 := by
  rw [natural, Nat.ofDigitChars_eq_foldl]
  refine List.foldl_ext _ _ 0 fun n c hc => ?_
  rw [hexValue?_digit (h c hc), Nat.mul_comm]
  rfl

theorem basic_eq (h : ∀ c ∈ ds, c.isDigit = true) : basic ds = ds := by
  have hall : ds.all (·.toNat < 0x80) = true := by
    simp only [List.all_eq_true, decide_eq_true_eq]
    intro c hc
    have hbounds := digit_bounds (h c hc)
    omega
  rw [basic, if_pos hall]

theorem sign_eq (h : ∀ c ∈ ds, c.isDigit = true) : sign ds = (false, ds) := by
  unfold sign
  split
  next rest => exact absurd (h '-' List.mem_cons_self) (by decide)
  next rest => exact absurd (h '+' List.mem_cons_self) (by decide)
  next => rfl

theorem withoutBase_ten (ds : List Char) : withoutBase 10 ds = ds := by
  unfold withoutBase
  split
  next => simp [baseLetter?]
  next => rfl

/-- A numeral stands for its number, unless it is too long. -/
theorem int_ten (h : IsNumeral ds) (hlen : ds.length ≤ maxDigits) :
    int 10 ds = .ok (Nat.ofDigitChars 10 ds 0) := by
  have hspace : ds.dropWhile isSpace = ds := by
    obtain ⟨c, rest, rfl⟩ := List.exists_cons_of_ne_nil h.nonempty
    have hbounds := digit_bounds (h.digits c List.mem_cons_self)
    have hc : isSpace c = false := by
      simp only [isSpace, Bool.or_eq_false_iff, decide_eq_false_iff_not, Bool.and_eq_false_iff]
      refine ⟨ne_of_isDigit (h.digits c List.mem_cons_self) (by decide), .inr fun hle => ?_⟩
      have hnat : c.toNat ≤ 13 := hle
      omega
    simp [hc]
  have hrow : ds.takeWhile (fun c => (digitIn? 10 c).isSome || c = '_') = ds := by
    rw [List.takeWhile_eq_self_iff]
    intro c hc
    have hbounds := digit_bounds (h.digits c hc)
    have hlt : c.toNat - 48 < 10 := by omega
    simp [digitIn?, hexValue?_digit (h.digits c hc), hlt]
  have hgap : ∀ c ∈ ds, c ≠ '_' := fun c hc => ne_of_isDigit (h.digits c hc) (by decide)
  have hfilter : ds.filter (· ≠ '_') = ds := by
    rw [List.filter_eq_self]
    simpa using hgap
  have hgrouped : isGrouped ds = true := by
    have hsplit : Text.splitOn '_' ds = [ds] := by
      rw [Text.splitOn, Text.splitWhere_eq_splitOnP, List.splitOnP_eq_singleton]
      simpa using hgap
    have hsome : ds.isEmpty = false := by simpa using h.nonempty
    rw [isGrouped, hsplit, List.any_cons, hsome]
    rfl
  simp only [int, basic_eq h.digits, hspace, sign_eq h.digits, withoutBase_ten, hrow, hfilter,
    hgrouped]
  simp [Nat.not_lt.mpr hlen, natural_eq h.digits]

end Numeral

namespace Yaml

variable {ds : List Char} {negative : Bool}

theorem unsigned_signed (h : IsNumeral ds) : unsigned (signed negative ds) = ds := by
  cases negative with
  | true => rfl
  | false =>
    obtain ⟨c, rest, rfl⟩ := List.exists_cons_of_ne_nil h.nonempty
    have hc := h.digits c List.mem_cons_self
    have hminus : c ≠ '-' := ne_of_isDigit hc (by decide)
    have hplus : c ≠ '+' := ne_of_isDigit hc (by decide)
    simp [signed, unsigned, isSign, hminus, hplus]

theorem isWhole_signed (h : IsNumeral ds) : isWhole (signed negative ds) = true := by
  rw [isWhole, unsigned_signed h]
  split
  next => rfl
  next rest => cases h.leading rfl
  next rest => cases h.leading rfl
  next rest hne _ _ => exact absurd (List.cons.inj (h.leading rfl)).2 (by simpa using hne)
  next =>
    obtain ⟨c, rest, rfl⟩ := List.exists_cons_of_ne_nil h.nonempty
    have hrest : rest.all isDigitOrGap = true := by
      simp only [List.all_eq_true, isDigitOrGap]
      intro d hd
      simp [h.digits d (List.mem_cons_of_mem c hd)]
    simp [isGrouped, h.digits c List.mem_cons_self, hrest]

theorem mem_signed {c : Char} (h : IsNumeral ds) (hc : c ∈ signed negative ds) :
    c = '-' ∨ c.isDigit = true := by
  cases negative with
  | true =>
    rcases List.mem_cons.mp hc with rfl | hc
    · exact .inl rfl
    · exact .inr (h.digits c hc)
  | false => exact .inr (h.digits c hc)

theorem visible_signed (h : IsNumeral ds) : ∀ c ∈ signed negative ds, IsVisible c := by
  intro c hc
  rcases mem_signed h hc with rfl | hc
  · decide
  · have hbounds := digit_bounds hc
    refine ⟨?_, ?_⟩
    · change 32 ≤ c.toNat
      omega
    · change c.toNat ≤ 126
      omega

theorem plainTag_signed (h : IsNumeral ds) : plainTag (signed negative ds) = coreTag "int" := by
  have hfeed : withoutLineFeed (signed negative ds) = signed negative ds := by
    rw [withoutLineFeed, if_neg]
    simp only [Bool.and_eq_true, decide_eq_true_eq, not_and]
    intro _ hlast
    exact absurd (visible_signed h _ (List.mem_of_getLast? hlast)) (by decide)
  have htruth : truthWords.contains (String.ofList (signed negative ds)) = false := by
    rw [← Bool.not_eq_true, List.contains_iff_mem]
    intro hm
    have hletter : ∀ word ∈ truthWords,
        (word.toList.any fun c => c ≠ '-' && !c.isDigit) = true := by decide
    obtain ⟨c, hc, hword⟩ := List.any_eq_true.mp (hletter _ hm)
    obtain ⟨hminus, hdigit⟩ : c ≠ '-' ∧ c.isDigit = false := by simpa using hword
    rw [String.toList_ofList] at hc
    rcases mem_signed h hc with rfl | hc
    · exact hminus rfl
    · exact ne_of_isDigit hc hdigit rfl
  have hfraction : isFractional (signed negative ds) = false := by
    have hdot : ∀ c ∈ ds, c ≠ '.' := fun c hc => ne_of_isDigit (h.digits c hc) (by decide)
    have htake : ds.takeWhile (fun c => decide (c ≠ '.')) = ds := by
      rw [List.takeWhile_eq_self_iff]
      simpa using hdot
    rw [isFractional, unsigned_signed h]
    simp only [htake, List.drop_length]
  simp only [plainTag, hfeed, htruth, hfraction, isWhole_signed h, Bool.false_eq_true, if_false,
    if_true]

theorem magnitudeOf_numeral (h : IsNumeral ds) (hlen : ds.length ≤ maxDigits) :
    magnitudeOf ds = .ok (Nat.ofDigitChars 10 ds 0) := by
  have hcolon : ds.contains ':' = false := by
    rw [← Bool.not_eq_true, List.contains_iff_mem]
    exact fun hm => ne_of_isDigit (h.digits _ hm) (by decide) rfl
  unfold magnitudeOf
  split
  next => exact absurd rfl h.nonempty
  next => rfl
  next digits => cases h.leading rfl
  next digits => cases h.leading rfl
  next rest hne _ _ => exact absurd (List.cons.inj (h.leading rfl)).2 (by simpa using hne)
  next =>
    rw [hcolon, if_neg (by decide)]
    exact Numeral.int_ten h hlen

theorem intOf_signed (h : IsNumeral ds) (hlen : ds.length ≤ maxDigits) :
    intOf (signed negative ds) = .ok (if negative then -(Nat.ofDigitChars 10 ds 0 : Int)
      else Nat.ofDigitChars 10 ds 0) := by
  have hgap : ∀ c ∈ signed negative ds, c ≠ '_' := by
    intro c hc
    rcases mem_signed h hc with rfl | hc
    · decide
    · exact ne_of_isDigit hc (by decide)
  have hfilter : withoutGaps (signed negative ds) = signed negative ds := by
    rw [withoutGaps, List.filter_eq_self]
    simpa using hgap
  have hbare := @unsigned_signed ds negative h
  have hmagnitude := magnitudeOf_numeral h hlen
  rw [← hbare] at hmagnitude
  rw [intOf, hfilter]
  cases negative with
  | true => exact except_bind_eq_ok.mpr ⟨_, hmagnitude, by simp [pure, Except.pure, hbare]⟩
  | false =>
    obtain ⟨c, rest, rfl⟩ := List.exists_cons_of_ne_nil h.nonempty
    have hminus : c ≠ '-' := ne_of_isDigit (h.digits c List.mem_cons_self) (by decide)
    exact except_bind_eq_ok.mpr ⟨_, hmagnitude, by simp [pure, Except.pure, hbare, hminus]⟩

theorem runs_word {w : List Char} (hne : w ≠ []) (hv : ∀ c ∈ w, IsVisible c) (hs : ' ' ∉ w) :
    runs w = [(.word, w)] := by
  induction w with
  | nil => exact absurd rfl hne
  | cons c w ih =>
    have hc : RunKind.of c = .word := by
      have hcs : c ≠ ' ' := fun heq => hs (heq ▸ List.mem_cons_self)
      rw [(hv c List.mem_cons_self).runKind, if_neg hcs]
    cases w with
    | nil => simp [runs, hc]
    | cons d w =>
      rw [runs, ih (by simp) (fun e he => hv e (List.mem_cons_of_mem c he)) fun hm =>
        hs (List.mem_cons_of_mem c hm)]
      simp [hc]

theorem plainText_signed (h : IsNumeral ds) : PlainText (signed negative ds) := by
  have hne : signed negative ds ≠ [] := by
    intro hnil
    cases negative with
    | true => cases hnil
    | false => exact h.nonempty hnil
  have hnot : ∀ {c : Char}, c ≠ '-' → c.isDigit = false → c ∉ signed negative ds := by
    intro c hminus hdigit hm
    rcases mem_signed h hm with rfl | hc
    · exact hminus rfl
    · exact ne_of_isDigit hc hdigit rfl
  have hspace : ' ' ∉ signed negative ds := hnot (by decide) (by decide)
  have hruns := runs_word hne (visible_signed h) hspace
  have hword : PlainWord (signed negative ds) := {
    nonempty := hne
    visible := visible_signed h
    whole := hspace
    notComment := fun heq => hnot (by decide) (by decide) (List.mem_of_head? heq)
    notColon := fun heq => hnot (by decide) (by decide) (List.mem_of_getLast? heq) }
  refine ⟨hruns ▸ .last hword, fun w rest heq => ?_⟩
  cases hruns.symm.trans heq
  refine ⟨fun c hc => ?_, fun c hc hmark => ?_, fun htake => ?_, fun htake => ?_⟩
  · have hlist : ∀ d ∈ startSigns, d ≠ '-' ∧ d.isDigit = false :=
      List.forall_iff_forall_mem.mp (by decide)
    exact fun hm => hnot (hlist c hm).1 (hlist c hm).2 (List.mem_of_head? hc)
  · cases negative with
    | true =>
      have hpos := List.length_pos_iff.mpr h.nonempty
      simp only [signed, if_true, List.length_cons]
      omega
    | false =>
      have hdigit := h.digits c (List.mem_of_head? hc)
      rcases hmark with rfl | rfl | rfl <;> cases hdigit
  · cases negative with
    | true =>
      have hm : '-' ∈ ds.take 2 := by
        have htail : ds.take 2 = ['-', '-'] := (List.cons.inj htake).2
        rw [htail]
        exact List.mem_cons_self
      cases h.digits _ (List.mem_of_mem_take hm)
    | false =>
      have hm : '-' ∈ ds.take 3 := by
        rw [show ds.take 3 = ['-', '-', '-'] from htake]
        exact List.mem_cons_self
      cases h.digits _ (List.mem_of_mem_take hm)
  · have hm : '.' ∈ (signed negative ds).take 3 := htake ▸ List.mem_cons_self
    exact hnot (by decide) (by decide) (List.mem_of_mem_take hm)

end Yaml

end NPlusOne
