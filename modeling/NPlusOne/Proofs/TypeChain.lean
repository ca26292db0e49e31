import Mathlib.Data.Fintype.Pigeonhole
import Mathlib.Logic.Function.Iterate
import NPlusOne.TypeIdentity

namespace NPlusOne

/-- From the first value so many steps, each taken because there is more, lead to the second one,
where there is no more. -/
inductive Exhausts {α : Type} (more : α → Prop) (step : α → α) : α → Nat → α → Prop
  | stop {a : α} : ¬ more a → Exhausts more step a 0 a
  | go {a b : α} {n : Nat} : more a → Exhausts more step (step a) n b →
    Exhausts more step a (n + 1) b

namespace Exhausts

variable {α : Type} {more : α → Prop} {step : α → α} {a b b' : α} {n n' k : Nat}

theorem stops (h : Exhausts more step a n b) : ¬ more b := by
  induction h with
  | stop hno => exact hno
  | go _ _ ih => exact ih

theorem unique (h : Exhausts more step a n b) (h' : Exhausts more step a n' b') :
    n = n' ∧ b = b' := by
  induction h generalizing n' with
  | stop hno =>
    cases h' with
    | stop => exact ⟨rfl, rfl⟩
    | go hmore => exact absurd hmore hno
  | go hmore _ ih =>
    cases h' with
    | stop hno => exact absurd hmore hno
    | go _ h' =>
      obtain ⟨rfl, rfl⟩ := ih h'
      exact ⟨rfl, rfl⟩

/-- Where so many steps lead to a value at which there is no more, this is reached by then. -/
theorem of_iterate (h : ¬ more (step^[k] a)) : ∃ n ≤ k, ∃ b, Exhausts more step a n b := by
  induction k generalizing a with
  | zero => exact ⟨0, Nat.le_refl 0, a, .stop h⟩
  | succ k ih =>
    by_cases hmore : more a
    · obtain ⟨n, hn, b, hb⟩ := ih h
      exact ⟨n + 1, Nat.succ_le_succ hn, b, .go hmore hb⟩
    · exact ⟨0, Nat.zero_le _, a, .stop hmore⟩

end Exhausts

namespace TranslationUnit

variable {u : TranslationUnit}

/-- The second type is what the first one, behind all names for it, points or refers to. -/
def PointsTo (u : TranslationUnit) (t t' : CxxType) : Prop :=
  ∃ id, (u.canonical t).pointee = some id ∧ t' = u.type id

/-- No chain of pointees goes on for ever. -/
def Grounded (u : TranslationUnit) : Prop :=
  WellFounded fun t' t => u.PointsTo t t'

/-- A table whose types lead only to earlier ones has no endless chain. -/
theorem grounded_of_descending
    (h : ∀ id < u.types.size, ∀ next ∈ (u.canonical (u.type id)).pointee, next < id) :
    u.Grounded := by
  have hentry : ∀ id, Acc (fun t' t => u.PointsTo t t') (u.type id) := by
    intro id
    induction id using Nat.strongRecOn with
    | _ id ih =>
      refine ⟨_, ?_⟩
      rintro _ ⟨next, hnext, rfl⟩
      by_cases hid : id < u.types.size
      · exact ih next (h id hid next hnext)
      · have hnone : u.type id = .invalid := by
          rw [type, Array.getElem?_eq_none (Nat.le_of_not_lt hid)]
          rfl
        rw [hnone] at hnext
        cases hnext
  refine ⟨fun t => ⟨t, ?_⟩⟩
  rintro _ ⟨id, _, rfl⟩
  exact hentry id

theorem pointee_invalid (u : TranslationUnit) : u.pointee .invalid = .invalid := rfl

theorem iterate_pointee_invalid (u : TranslationUnit) (n : Nat) :
    u.pointee^[n] .invalid = .invalid :=
  Function.iterate_fixed u.pointee_invalid n

theorem exists_iterate_canonical (h : u.Grounded) (t : CxxType) :
    ∃ k, u.pointee^[k] (u.canonical t) = .invalid := by
  induction t using h.induction with
  | _ t ih =>
    cases hp : (u.canonical t).pointee with
    | none => exact ⟨1, by simp [pointee, hp]⟩
    | some id =>
      obtain ⟨k, hk⟩ := ih (u.type id) ⟨id, hp, rfl⟩
      exact ⟨k + 1, by simpa [pointee, hp] using hk⟩

theorem exists_iterate (h : u.Grounded) (t : CxxType) : ∃ k, u.pointee^[k] t = .invalid := by
  cases hp : t.pointee with
  | none => exact ⟨1, by simp [pointee, hp]⟩
  | some id =>
    obtain ⟨k, hk⟩ := exists_iterate_canonical h (u.type id)
    exact ⟨k + 1, by simpa [pointee, hp] using hk⟩

/-- What is not the invalid type comes from an entry of the table. -/
theorem pointee_entry {t : CxxType} (h : u.pointee t ≠ .invalid) :
    ∃ i : Fin u.types.size, u.pointee t = u.canonical (u.type i) := by
  unfold pointee at *
  split at h
  next id hid =>
    by_cases hlt : id < u.types.size
    · exact ⟨⟨id, hlt⟩, rfl⟩
    · refine absurd ?_ h
      simp [type, Array.getElem?_eq_none (Nat.le_of_not_lt hlt), canonical, CxxType.invalid]
  next => exact absurd rfl h

/-- A chain that comes back to a type does not end. -/
theorem iterate_repeats {t : CxxType} {a b k : Nat} (hab : a < b) (hbk : b ≤ k)
    (heq : u.pointee^[a] t = u.pointee^[b] t) :
    u.pointee^[k - (b - a)] t = u.pointee^[k] t := by
  have hshort : k - (b - a) = (k - b) + a := by omega
  have hlong : k = (k - b) + b := by omega
  rw [hshort, Function.iterate_add_apply, heq, ← Function.iterate_add_apply, ← hlong]

/-- No chain of pointees is longer than the table, so the bound on chains is never what ends one. -/
theorem iterate_chainBound (h : u.Grounded) (t : CxxType) :
    u.pointee^[u.chainBound] t = .invalid := by
  classical
  have hex := exists_iterate h t
  obtain ⟨k, hk, hmin⟩ : ∃ k, u.pointee^[k] t = .invalid ∧ ∀ j < k, u.pointee^[j] t ≠ .invalid :=
    ⟨Nat.find hex, Nat.find_spec hex, fun j hj => Nat.find_min hex hj⟩
  have hle : k ≤ u.chainBound := by
    -- Otherwise two of the first steps of the chain lead to the same entry of the table.
    by_contra hlt
    have hlong : u.types.size + 1 < k := Nat.lt_of_not_le hlt
    have hentry : ∀ j : Fin (u.types.size + 1), ∃ i : Fin u.types.size,
        u.pointee^[j + 1] t = u.canonical (u.type i) := by
      intro j
      have hne := hmin (j + 1) (by omega)
      rw [Function.iterate_succ_apply'] at hne ⊢
      exact pointee_entry hne
    choose entry hentry using hentry
    obtain ⟨a, b, hab, hsame⟩ := Fintype.exists_ne_map_eq_of_card_lt entry (by simp)
    wlog hlt : a < b generalizing a b
    · exact this b a hab.symm hsame.symm (by omega)
    have heq : u.pointee^[a + 1] t = u.pointee^[b + 1] t := by rw [hentry, hentry, hsame]
    have hshort := iterate_repeats (k := k) (by omega) (by omega) heq
    exact hmin (k - (b + 1 - (a + 1))) (by omega) (hshort.trans hk)
  have hsplit : u.chainBound = (u.chainBound - k) + k := by omega
  rw [hsplit, Function.iterate_add_apply, hk, iterate_pointee_invalid]

section Loops

variable {t core plain : CxxType} {depth n fuel : Nat}

/-- So many references are taken off the type until none is left. -/
abbrev ShedsReferences (u : TranslationUnit) : CxxType → Nat → CxxType → Prop :=
  Exhausts (fun t => t.kind.isReference = true) u.pointee

/-- So many pointers are taken off the type until none is left. -/
abbrev ShedsPointers (u : TranslationUnit) : CxxType → Nat → CxxType → Prop :=
  Exhausts (fun t => t.kind = .pointer) u.pointee

/-- Behind all names and references, the type is so many pointers around the core. -/
def Peels (u : TranslationUnit) (t : CxxType) (depth : Nat) (core : CxxType) : Prop :=
  ∃ refs plain, u.ShedsReferences (u.canonical t) refs plain ∧ u.ShedsPointers plain depth core

/-- The identity that so many pointers around a declared type have. -/
def declared? (u : TranslationUnit) (depth : Int) (core : CxxType) : Option QueryType :=
  (core.declaration.bind u.node?).bind fun decl =>
    if decl.kind = .noDeclaration ∨ decl.info.usr = "" then none
    else some ⟨decl.info.usr, depth, core.spelling⟩

/-- The type of which the declaration counts, and the number of pointers around it. -/
def stripped (u : TranslationUnit) (t : CxxType) : Int × CxxType :=
  u.stripPointers u.chainBound 0 (u.stripReferences u.chainBound (u.canonical t))

theorem stripReferences_of_sheds (h : u.ShedsReferences t n plain) (hn : n ≤ fuel) :
    u.stripReferences fuel t = plain := by
  induction h generalizing fuel with
  | stop hno => cases fuel <;> simp [stripReferences, hno]
  | go hmore _ ih =>
    obtain ⟨rest, rfl⟩ := Nat.exists_eq_add_of_lt hn
    rw [stripReferences, if_pos hmore]
    exact ih (by omega)

theorem stripPointers_of_sheds (h : u.ShedsPointers t n core) (hn : n ≤ fuel) (depth : Int) :
    u.stripPointers fuel depth t = (depth + n, core) := by
  induction h generalizing fuel depth with
  | stop hno => cases fuel <;> simp [stripPointers, hno]
  | @go _ _ n hmore _ ih =>
    obtain ⟨rest, rfl⟩ := Nat.exists_eq_add_of_lt hn
    have hsum : depth + 1 + (n : Int) = depth + ((n + 1 : Nat) : Int) := by omega
    rw [stripPointers, if_pos hmore, ih (by omega), hsum]

/-- A loop along a chain of pointees that ends has come to an end by then. -/
theorem exists_exhausts (more : CxxType → Prop) (h : u.pointee^[fuel] t = .invalid)
    (hno : ¬ more .invalid) : ∃ n ≤ fuel, ∃ b, Exhausts more u.pointee t n b := by
  rw [← h] at hno
  exact Exhausts.of_iterate hno

theorem stripReferences_stops (h : u.pointee^[fuel] t = .invalid) :
    (u.stripReferences fuel t).kind.isReference = false := by
  obtain ⟨n, hn, plain, hplain⟩ :=
    exists_exhausts (fun t => t.kind.isReference = true) h (by decide)
  rw [stripReferences_of_sheds hplain hn]
  simpa using hplain.stops

theorem stripPointers_stops {depth : Int} (h : u.pointee^[fuel] t = .invalid) :
    (u.stripPointers fuel depth t).2.kind ≠ .pointer := by
  obtain ⟨n, hn, core, hcore⟩ := exists_exhausts (fun t => t.kind = .pointer) h (by decide)
  rw [stripPointers_of_sheds hcore hn]
  exact hcore.stops

theorem Peels.unique {depth' : Nat} {core' : CxxType} (h : u.Peels t depth core)
    (h' : u.Peels t depth' core') : depth = depth' ∧ core = core' := by
  obtain ⟨refs, plain, hplain, hcore⟩ := h
  obtain ⟨refs', plain', hplain', hcore'⟩ := h'
  obtain ⟨_, rfl⟩ := hplain.unique hplain'
  exact hcore.unique hcore'

/-- In a grounded table both loops end before the bound is reached. -/
theorem exists_peels (hg : u.Grounded) (t : CxxType) :
    ∃ depth core, u.Peels t depth core ∧ u.stripped t = ((depth : Int), core) := by
  obtain ⟨refs, hrefs, plain, hplain⟩ := exists_exhausts
    (fun t => t.kind.isReference = true) (iterate_chainBound hg (u.canonical t)) (by decide)
  obtain ⟨depth, hdepth, core, hcore⟩ := exists_exhausts
    (fun t => t.kind = .pointer) (iterate_chainBound hg plain) (by decide)
  refine ⟨depth, core, ⟨refs, plain, hplain, hcore⟩, ?_⟩
  rw [stripped, stripReferences_of_sheds hplain hrefs, stripPointers_of_sheds hcore hdepth,
    Int.zero_add]

theorem Peels.stripped (hg : u.Grounded) (h : u.Peels t depth core) :
    u.stripped t = ((depth : Int), core) := by
  obtain ⟨depth', core', hpeels, hstripped⟩ := exists_peels hg t
  obtain ⟨rfl, rfl⟩ := h.unique hpeels
  exact hstripped

theorem Peels.identity?_eq (hg : u.Grounded) (h : u.Peels t depth core)
    (hvalid : t.kind ≠ .invalid) : u.identity? t = u.declared? depth core := by
  have hs := h.stripped hg
  rw [TranslationUnit.stripped] at hs
  simp only [TranslationUnit.identity?, hvalid, hs, if_false, declared?]
  cases core.declaration with
  | none => rfl
  | some id =>
    cases hdecl : u.node? id with
    | none => simp [hdecl]
    | some decl => simp [hdecl]

theorem declared?_eq_some {depth : Int} {i : QueryType} : u.declared? depth core = some i ↔
    ∃ id decl, core.declaration = some id ∧ u.node? id = some decl ∧
      decl.kind ≠ .noDeclaration ∧ decl.info.usr ≠ "" ∧
      i = ⟨decl.info.usr, depth, core.spelling⟩ := by
  constructor
  · intro h
    obtain ⟨decl, hnode, hi⟩ := Option.bind_eq_some_iff.mp h
    obtain ⟨id, hid, hdecl⟩ := Option.bind_eq_some_iff.mp hnode
    split at hi
    next => cases hi
    next hno =>
      cases hi
      rw [not_or] at hno
      exact ⟨id, decl, hid, hdecl, hno.1, hno.2, rfl⟩
  · rintro ⟨id, decl, hid, hdecl, hkind, husr, rfl⟩
    simp [declared?, hid, hdecl, hkind, husr]

end Loops

end TranslationUnit

end NPlusOne
