import NPlusOne.Proofs.TypeChain

namespace NPlusOne

namespace TranslationUnit

variable {u : TranslationUnit} {t t' x core : CxxType} {usr : String} {n m : Nat}

/-- Behind names and top-level references, the first type is the second one. Types that have the
same canonical type are names of one type. -/
inductive Reveals (u : TranslationUnit) : CxxType → CxxType → Prop
  | name {t t' : CxxType} : u.canonical t = u.canonical t' → Reveals u t t'
  | reference {t x t' : CxxType} : (u.canonical t).kind.isReference = true → u.PointsTo t x →
    Reveals u x t' → Reveals u t t'

/-- Behind names, the first type is so many pointers around the second one. -/
inductive Points (u : TranslationUnit) : Nat → CxxType → CxxType → Prop
  | name {t t' : CxxType} : u.canonical t = u.canonical t' → Points u 0 t t'
  | pointer {n : Nat} {t x t' : CxxType} : (u.canonical t).kind = .pointer → u.PointsTo t x →
    Points u n x t' → Points u (n + 1) t t'

/-- The declaration of the type, behind all names for it, has the USR. -/
def Declares (u : TranslationUnit) (t : CxxType) (usr : String) : Prop :=
  ∃ id decl, (u.canonical t).declaration = some id ∧ u.node? id = some decl ∧
    decl.kind ≠ .noDeclaration ∧ decl.info.usr = usr ∧ usr ≠ ""

/-- Behind names and top-level references, the type is so many pointers around the other one. An
invalid type is none. -/
def IsPointer (u : TranslationUnit) (n : Nat) (t x : CxxType) : Prop :=
  t.kind ≠ .invalid ∧ ∃ p, u.Reveals t p ∧ u.Points n p x

/-- Behind names and top-level references, the type is so many pointers around one that is no
pointer and is declared with the USR. -/
def Denotes (u : TranslationUnit) (t : CxxType) (usr : String) (n : Nat) : Prop :=
  t.kind ≠ .invalid ∧ ∃ p core, u.Reveals t p ∧ (u.canonical p).kind.isReference = false ∧
    u.Points n p core ∧ (u.canonical core).kind ≠ .pointer ∧ u.Declares core usr

theorem pointee_of_pointsTo (h : u.PointsTo t x) : u.pointee (u.canonical t) = u.canonical x := by
  obtain ⟨id, hid, rfl⟩ := h
  simp [pointee, hid]

theorem not_reference_of_pointer {k : TypeKind} (h : k = .pointer) : k.isReference = false := by
  rw [h]
  rfl

theorem Points.rename (h : u.canonical t = u.canonical t') (hp : u.Points n t' x) :
    u.Points n t x := by
  cases hp with
  | name hx => exact .name (h.trans hx)
  | pointer hkind hto hp =>
    obtain ⟨id, hid, rfl⟩ := hto
    exact .pointer (by rw [h]; exact hkind) ⟨id, by rw [h]; exact hid, rfl⟩ hp

theorem Points.trans (h : u.Points n t t') (h' : u.Points m t' x) : u.Points (n + m) t x := by
  induction h with
  | name ht =>
    rw [Nat.zero_add]
    exact h'.rename ht
  | @pointer n _ _ _ hkind hto _ ih =>
    have hsum : n + 1 + m = n + m + 1 := by omega
    rw [hsum]
    exact .pointer hkind hto (ih h')

/-- Pointers around a type that is no reference add to the pointers that it has itself. -/
theorem IsPointer.denotes (h : u.IsPointer n t x) (hx : (u.canonical x).kind.isReference = false)
    (hd : u.Denotes x usr m) : u.Denotes t usr (n + m) := by
  obtain ⟨hvalid, p, hreveals, hpoints⟩ := h
  obtain ⟨_, q, core, hq, _, hcore, hplain, hdeclares⟩ := hd
  have hsame : u.canonical x = u.canonical q := by
    cases hq with
    | name hsame => exact hsame
    | reference hkind => cases hx.symm.trans hkind
  have hp : (u.canonical p).kind.isReference = false := by
    cases hpoints with
    | name hname =>
      rw [hname]
      exact hx
    | pointer hkind => exact not_reference_of_pointer hkind
  exact ⟨hvalid, p, core, hreveals, hp, hpoints.trans (hcore.rename hsame), hplain, hdeclares⟩

theorem Reveals.sheds (h : u.Reveals t t') (hplain : (u.canonical t').kind.isReference = false) :
    ∃ refs, u.ShedsReferences (u.canonical t) refs (u.canonical t') := by
  induction h with
  | name hsame =>
    rw [hsame]
    exact ⟨0, .stop (by simp [hplain])⟩
  | reference hkind hto _ ih =>
    obtain ⟨refs, hrefs⟩ := ih hplain
    rw [← pointee_of_pointsTo hto] at hrefs
    exact ⟨refs + 1, .go hkind hrefs⟩

theorem Points.sheds (h : u.Points n t t') (hplain : (u.canonical t').kind ≠ .pointer) :
    u.ShedsPointers (u.canonical t) n (u.canonical t') := by
  induction h with
  | name hsame =>
    rw [hsame]
    exact .stop hplain
  | pointer hkind hto _ ih =>
    have hrest := ih hplain
    rw [← pointee_of_pointsTo hto] at hrest
    exact .go hkind hrest

/-- A loop along the pointees of a type ends at the invalid type, or at the end of a chain of types
that point or refer to each other. -/
theorem chain_of_exhausts {more : CxxType → Prop} {b : CxxType}
    (chain : Nat → CxxType → CxxType → Prop) (hno : ¬ more .invalid) (hname : ∀ t, chain 0 t t)
    (hstep : ∀ {n t x y}, more (u.canonical t) → u.PointsTo t x → chain n x y → chain (n + 1) t y)
    (h : Exhausts more u.pointee (u.canonical t) n b) :
    b = .invalid ∨ ∃ x, chain n t x ∧ u.canonical x = b := by
  generalize hc : u.canonical t = c at h
  induction h generalizing t with
  | stop => exact .inr ⟨t, hname t, hc⟩
  | go hmore hrest ih =>
    subst hc
    cases hid : (u.canonical t).pointee with
    | none =>
      have hend : u.pointee (u.canonical t) = .invalid := by simp [pointee, hid]
      rw [hend] at hrest
      exact .inl (hrest.unique (.stop hno)).2
    | some id =>
      have hto : u.PointsTo t (u.type id) := ⟨id, hid, rfl⟩
      rcases ih (pointee_of_pointsTo hto).symm with hend | ⟨x, hx, hcanonical⟩
      · exact .inl hend
      · exact .inr ⟨x, hstep hmore hto hx, hcanonical⟩

/-- What is left of a type without its references is the invalid type, or it is revealed. -/
theorem reveals_of_sheds {refs : Nat} {plain : CxxType} :
    u.ShedsReferences (u.canonical t) refs plain →
      plain = .invalid ∨ ∃ p, u.Reveals t p ∧ u.canonical p = plain :=
  chain_of_exhausts (fun _ => u.Reveals) (by decide) (fun _ => .name rfl) .reference

theorem points_of_sheds :
    u.ShedsPointers (u.canonical t) n core →
      core = .invalid ∨ ∃ x, u.Points n t x ∧ u.canonical x = core :=
  chain_of_exhausts u.Points (by decide) (fun _ => .name rfl) .pointer

theorem identity?_of_denotes (hg : u.Grounded) (h : u.Denotes t usr n) :
    ∃ name, u.identity? t = some ⟨usr, n, name⟩ := by
  obtain ⟨hvalid, p, core, hreveals, hplain, hpoints, hcore, hdeclares⟩ := h
  obtain ⟨id, decl, hid, hdecl, hkind, rfl, hne⟩ := hdeclares
  obtain ⟨refs, hrefs⟩ := hreveals.sheds hplain
  have hpeels : u.Peels t n (u.canonical core) := ⟨refs, _, hrefs, hpoints.sheds hcore⟩
  refine ⟨(u.canonical core).spelling, ?_⟩
  rw [hpeels.identity?_eq hg hvalid]
  exact declared?_eq_some.mpr ⟨id, decl, hid, hdecl, hkind, hne, rfl⟩

theorem denotes_of_identity? (hg : u.Grounded) {i : QueryType} (h : u.identity? t = some i) :
    ∃ n : Nat, i.depth = n ∧ u.Denotes t i.usr n := by
  have hvalid : t.kind ≠ .invalid := by
    intro hno
    simp [identity?, hno] at h
  obtain ⟨n, core, hpeels, _⟩ := exists_peels hg t
  rw [hpeels.identity?_eq hg hvalid] at h
  obtain ⟨id, decl, hid, hdecl, hkind, hne, rfl⟩ := declared?_eq_some.mp h
  obtain ⟨refs, plain, hplain, hcore⟩ := hpeels
  have hdeclared : core ≠ .invalid := by
    intro hno
    rw [hno] at hid
    cases hid
  rcases reveals_of_sheds hplain with hend | ⟨p, hreveals, rfl⟩
  · rw [hend] at hcore
    exact absurd (hcore.unique (.stop (by decide))).2 hdeclared
  · rcases points_of_sheds hcore with hend | ⟨x, hpoints, rfl⟩
    · exact absurd hend hdeclared
    · exact ⟨n, rfl, hvalid, p, x, hreveals, by simpa using hplain.stops, hpoints, hcore.stops, id,
        decl, hid, hdecl, hkind, rfl, hne⟩

/-- A type denotes one declaration at one pointer depth. -/
theorem Denotes.unique (hg : u.Grounded) (h : u.Denotes t usr n) {usr' : String}
    (h' : u.Denotes t usr' m) : usr = usr' ∧ n = m := by
  obtain ⟨name, hname⟩ := identity?_of_denotes hg h
  obtain ⟨name', hname'⟩ := identity?_of_denotes hg h'
  have hsame := hname.symm.trans hname'
  simp only [Option.some.injEq, QueryType.mk.injEq] at hsame
  exact ⟨hsame.1, by omega⟩

end TranslationUnit

end NPlusOne
