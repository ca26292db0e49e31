import NPlusOne.Proofs.TypeRegistration

namespace NPlusOne

namespace TranslationUnit

variable {u : TranslationUnit} {t r core : CxxType} {depth : Nat}

/-- A type of the unit: an entry of its table, or the invalid type in the place of a missing one. -/
def HasType (u : TranslationUnit) (t : CxxType) : Prop :=
  t ∈ u.types ∨ t = .invalid

/-- A table of types in order: canonical types are their own, no chain of pointees goes on for ever,
and an invalid type has no declaration. -/
structure SoundTypes (u : TranslationUnit) : Prop where
  canonical : ∀ t ∈ u.types, u.canonical (u.canonical t) = u.canonical t
  grounded : u.Grounded
  undeclared : ∀ t ∈ u.types, t.kind = .invalid →
    ∀ id ∈ t.declaration, ∀ decl ∈ u.node? id, decl.kind = .noDeclaration

/-- What the first type, behind its names, points or refers to is the second one, behind its. -/
structure LeadsTo (u : TranslationUnit) (r t : CxxType) : Prop where
  valid : r.kind ≠ .invalid
  target : u.pointee (u.canonical r) = u.canonical t

/-- A reference leads on to where the type that it refers to leads. -/
theorem Peels.reference (h : u.Peels t depth core) (hr : u.LeadsTo r t)
    (hkind : (u.canonical r).kind.isReference = true) : u.Peels r depth core := by
  obtain ⟨refs, plain, hplain, hcore⟩ := h
  rw [← hr.target] at hplain
  exact ⟨refs + 1, plain, .go hkind hplain, hcore⟩

/-- A pointer adds one to the pointers of a type that is no reference. -/
theorem Peels.pointer (h : u.Peels t depth core) (hr : u.LeadsTo r t)
    (hkind : (u.canonical r).kind = .pointer) (ht : (u.canonical t).kind.isReference = false) :
    u.Peels r (depth + 1) core := by
  obtain ⟨refs, plain, hplain, hcore⟩ := h
  obtain ⟨_, rfl⟩ := hplain.unique (.stop (by simp [ht]))
  rw [← hr.target] at hcore
  have hstop : u.ShedsReferences (u.canonical r) 0 (u.canonical r) :=
    .stop (by simp [not_reference_of_pointer hkind])
  exact ⟨0, _, hstop, .go hkind hcore⟩

/-- Nothing is taken off a type that is invalid behind its names. -/
theorem Peels.of_invalid (h : u.Peels t depth core) (hinvalid : (u.canonical t).kind = .invalid) :
    core = u.canonical t := by
  have hplain : u.ShedsReferences (u.canonical t) 0 (u.canonical t) :=
    .stop (by simp [hinvalid, TypeKind.isReference])
  have hcore : u.ShedsPointers (u.canonical t) 0 (u.canonical t) := .stop (by simp [hinvalid])
  exact (h.unique ⟨0, _, hplain, hcore⟩).2

theorem declared?_eq_none
    (h : ∀ id ∈ core.declaration, ∀ decl ∈ u.node? id, decl.kind = .noDeclaration) (depth : Int) :
    u.declared? depth core = none := by
  refine Option.bind_eq_none_iff.mpr fun decl hdecl => ?_
  obtain ⟨id, hid, hnode⟩ := Option.bind_eq_some_iff.mp hdecl
  rw [if_pos (.inl (h id hid decl hnode))]

theorem declared?_succ (depth : Int) :
    u.declared? (depth + 1) core =
      (u.declared? depth core).map fun i => { i with depth := i.depth + 1 } := by
  unfold declared?
  cases core.declaration.bind u.node? with
  | none => rfl
  | some decl =>
    simp only [Option.bind_some]
    split <;> rfl

theorem hasType_type (u : TranslationUnit) (id : Nat) : u.HasType (u.type id) := by
  unfold type
  cases hid : u.types[id]? with
  | none => exact .inr rfl
  | some t => exact .inl (Array.mem_of_getElem? hid)

theorem HasType.canonical (h : u.HasType t) : u.HasType (u.canonical t) := by
  unfold TranslationUnit.canonical
  split
  next id _ => exact u.hasType_type id
  next => exact h

theorem SoundTypes.canonical_canonical (h : u.SoundTypes) (ht : u.HasType t) :
    u.canonical (u.canonical t) = u.canonical t := by
  rcases ht with ht | rfl
  · exact h.canonical t ht
  · rfl

/-- The identity of a type is read off its core, unless it is invalid and a name for a valid one. -/
theorem SoundTypes.identity?_of_peels (h : u.SoundTypes) (ht : u.HasType t)
    (hinvalid : t.kind = .invalid → (u.canonical t).kind = .invalid) (hp : u.Peels t depth core) :
    u.identity? t = u.declared? depth core := by
  by_cases hkind : t.kind = .invalid
  · have hcore := hp.of_invalid (hinvalid hkind)
    have hnone : u.declared? depth core = none := by
      refine declared?_eq_none ?_ depth
      rcases ht.canonical with hentry | hentry
      · rw [hcore]
        exact h.undeclared _ hentry (hinvalid hkind)
      · rw [hcore, hentry]
        simp [CxxType.invalid]
    rw [hnone]
    simp [identity?, hkind]
  · exact hp.identity?_eq h.grounded hkind

/-- The identity of a type is found, it is the same for all names of the type and for references to
it, and a pointer to a type that is no reference only counts as one more. -/
theorem identity_looks_through (h : u.SoundTypes) (ht : u.HasType t) :
    (∃ depth core, u.Peels t depth core ∧
      u.identity? t = if t.kind = .invalid then none else u.declared? depth core) ∧
    (t.kind ≠ .invalid → u.identity? t = u.identity? (u.canonical t)) ∧
    ((t.kind = .invalid → (u.canonical t).kind = .invalid) →
      (∀ r, u.LeadsTo r t → (u.canonical r).kind.isReference = true →
        u.identity? r = u.identity? t) ∧
      ∀ p, u.LeadsTo p t → (u.canonical p).kind = .pointer →
        (u.canonical t).kind.isReference = false →
        u.identity? p = (u.identity? t).map (fun i => { i with depth := i.depth + 1 }) ∧
        (u.identity? p = none ↔ u.identity? t = none)) := by
  obtain ⟨depth, core, hpeels, _⟩ := exists_peels h.grounded t
  refine ⟨⟨depth, core, hpeels, ?_⟩, fun hvalid => ?_, fun hinvalid => ⟨?_, ?_⟩⟩
  · split
    next hkind => simp [identity?, hkind]
    next hkind => exact hpeels.identity?_eq h.grounded hkind
  · have hsame := h.canonical_canonical ht
    have hcanonical : u.Peels (u.canonical t) depth core := by
      unfold Peels
      rw [hsame]
      exact hpeels
    rw [hpeels.identity?_eq h.grounded hvalid,
      h.identity?_of_peels ht.canonical (fun hkind => by rw [hsame, hkind]) hcanonical]
  · intro r hr hkind
    rw [h.identity?_of_peels ht hinvalid hpeels,
      (hpeels.reference hr hkind).identity?_eq h.grounded hr.valid]
  · intro p hp hkind hplain
    have hone : u.identity? p =
        (u.identity? t).map fun i => { i with depth := i.depth + 1 } := by
      rw [h.identity?_of_peels ht hinvalid hpeels,
        (hpeels.pointer hp hkind hplain).identity?_eq h.grounded hp.valid]
      exact declared?_succ depth
    exact ⟨hone, by rw [hone, Option.map_eq_none_iff]⟩

end TranslationUnit

namespace HandleTypes

open TranslationUnit

theorem soundTypes : unit.SoundTypes where
  canonical := by decide
  grounded := grounded
  undeclared := by decide

/-- A reference to a pointer to the handle, all of them behind names. -/
theorem handle_identity_through :
    unit.SoundTypes ∧ unit.HasType (unit.type 2) ∧ unit.HasType (unit.type 3) ∧
      unit.identity? (unit.type 5) = unit.identity? (unit.type 3) ∧
      unit.identity? (unit.type 3) =
        (unit.identity? (unit.type 2)).map (fun i => { i with depth := i.depth + 1 }) ∧
      unit.identity? (unit.type 2) = unit.identity? (unit.type 1) ∧
      unit.identity? (unit.type 5) = some ⟨"c:@S@conn", 2, "conn"⟩ := by
  have hname : unit.HasType (unit.type 2) := unit.hasType_type 2
  have hpointer : unit.HasType (unit.type 3) := unit.hasType_type 3
  obtain ⟨_, hcanonical, hlaws⟩ := identity_looks_through soundTypes hname
  obtain ⟨_, _, hlaws'⟩ := identity_looks_through soundTypes hpointer
  have href := (hlaws' (by decide)).1 (unit.type 5) ⟨by decide, by decide⟩ (by decide)
  have hone := (hlaws (by decide)).2 (unit.type 3) ⟨by decide, by decide⟩ (by decide) (by decide)
  exact ⟨soundTypes, hname, hpointer, href, hone.1, hcanonical (by decide), rfl⟩

end HandleTypes

namespace VeiledType

open TranslationUnit

/-- A struct, an invalid type whose canonical type it is, and a reference to that type. -/
def unit : TranslationUnit where
  nodes := #[.mk 0 { kind := .other "TRANSLATION_UNIT" } [HandleTypes.conn], HandleTypes.conn]
  types :=
    #[{ kind := .other "RECORD", spelling := "conn", declaration := some 1 },
      { kind := .invalid, canonical := some 0 },
      { kind := .lvalueReference, pointee := some 1 }]

/-- An invalid type has no identity, but a reference to it has that of the type which it hides. -/
theorem reference_unveils :
    unit.SoundTypes ∧ unit.LeadsTo (unit.type 2) (unit.type 1) ∧
      (unit.canonical (unit.type 2)).kind.isReference = true ∧
      unit.identity? (unit.type 1) = none ∧
      unit.identity? (unit.type 2) = some ⟨"c:@S@conn", 0, "conn"⟩ := by
  have hsound : unit.SoundTypes :=
    ⟨by decide, grounded_of_descending (by decide), by decide⟩
  exact ⟨hsound, ⟨by decide, by decide⟩, by decide, rfl, rfl⟩

end VeiledType

end NPlusOne
