import NPlusOne.Proofs.TaskRun
import NPlusOne.Proofs.TypeShape
import NPlusOne.TypeLookup

namespace NPlusOne

namespace TypeLookup

variable {units : List TranslationUnit} {library : Value} {name q header bare : String}
  {u : TranslationUnit} {decl : Node}

def stars (n : Nat) : String :=
  String.ofList (List.replicate n '*')

def leadingStars (name : String) : Nat :=
  (name.toList.takeWhile (· = '*')).length

theorem parseName_fst (name : String) : (parseName name).1 = leadingStars name := by
  have hsplit := congrArg List.length
    (List.takeWhile_append_dropWhile (p := fun c => decide (c = '*')) (l := name.toList))
  rw [List.length_append, String.length_toList] at hsplit
  simp only [parseName, leadingStars]
  omega

theorem leadingStars_stars (n : Nat) (q : String) :
    leadingStars (stars n ++ q) = n + leadingStars q := by
  simp [leadingStars, stars]

theorem parseName_snd_stars (n : Nat) (q : String) :
    (parseName (stars n ++ q)).2 = (parseName q).2 := by
  simp [parseName, stars]

/-- The lookup of the name goes through the declaration: the unit includes the library and has the
declaration under the name, and no unit before it answers. -/
def Through (units : List TranslationUnit) (library : Value) (name : String) (u : TranslationUnit)
    (decl : Node) : Prop :=
  ∃ header before after table, libraryName library = .ok header ∧
    units = before ++ u :: after ∧
    (∀ w ∈ before, w.lookup? header (parseName name).2 = .ok none) ∧
    u.includesLibrary header = true ∧ u.typeTable = .ok table ∧
    table.find? (·.1 = (parseName name).2) = some ((parseName name).2, decl)

theorem Through.stars (h : Through units library q u decl) (n : Nat) :
    Through units library (stars n ++ q) u decl := by
  unfold Through
  rw [parseName_snd_stars]
  exact h

theorem Through.mem (h : Through units library q u decl) : u ∈ units := by
  obtain ⟨_, _, _, _, _, rfl, _⟩ := h
  simp

theorem lookup?_eq_some {i : QueryType} :
    u.lookup? header bare = .ok (some i) ↔ u.includesLibrary header = true ∧
      ∃ table decl, u.typeTable = .ok table ∧ table.find? (·.1 = bare) = some (bare, decl) ∧
        u.identity? (u.typeOf decl) = some i := by
  rw [TranslationUnit.lookup?]
  cases hincludes : u.includesLibrary header with
  | false => simp [pure, Except.pure]
  | true =>
    cases htable : u.typeTable with
    | error e => simp [bind, Except.bind]
    | ok table =>
      cases hfind : table.find? (·.1 = bare) with
      | none => simp [bind, Except.bind, pure, Except.pure, hfind]
      | some entry =>
        obtain ⟨name, decl⟩ := entry
        have hname : name = bare := by simpa using List.find?_some hfind
        subst hname
        simp [bind, Except.bind, pure, Except.pure, hfind]

theorem search_of_first {before after : List TranslationUnit} {i : QueryType} (depth : Int)
    (hlibrary : libraryName library = .ok header)
    (hbefore : ∀ w ∈ before, w.lookup? header bare = .ok none)
    (hfirst : u.lookup? header bare = .ok (some i)) :
    search library depth bare (before ++ u :: after) =
      .ok (some { i with depth := i.depth + depth }) := by
  induction before with
  | nil =>
    simp only [List.nil_append, search, hlibrary, bind, Except.bind, hfirst]
    rfl
  | cons w before ih =>
    have hw := hbefore w List.mem_cons_self
    simp only [List.cons_append, search, hlibrary, bind, Except.bind, hw]
    exact ih fun w' hw' => hbefore w' (List.mem_cons_of_mem w hw')

/-- The answer comes from the first unit that has one. -/
theorem exists_first_of_search {depth : Int} {found : QueryType}
    (h : search library depth bare units = .ok (some found)) :
    ∃ header before u after i, libraryName library = .ok header ∧
      units = before ++ u :: after ∧ (∀ w ∈ before, w.lookup? header bare = .ok none) ∧
      u.lookup? header bare = .ok (some i) ∧ found = { i with depth := i.depth + depth } := by
  induction units with
  | nil => cases h
  | cons w rest ih =>
    cases hlibrary : libraryName library with
    | error e =>
      rw [search, hlibrary] at h
      cases h
    | ok header =>
      cases hw : w.lookup? header bare with
      | error e =>
        simp only [search, hlibrary, bind, Except.bind, hw] at h
        cases h
      | ok o =>
        simp only [search, hlibrary, bind, Except.bind, hw] at h
        cases o with
        | some i =>
          cases h
          exact ⟨header, [], w, rest, i, rfl, rfl, by simp, hw, rfl⟩
        | none =>
          obtain ⟨header', before, u, after, i, hheader', hrest, hbefore, hfirst, hfound⟩ := ih h
          cases hlibrary.symm.trans hheader'
          refine ⟨header, w :: before, u, after, i, rfl, by rw [hrest]; rfl, ?_, hfirst, hfound⟩
          intro w' hw'
          rcases List.mem_cons.mp hw' with rfl | hw'
          · exact hw
          · exact hbefore w' hw'

/-- What a lookup answers; the state only takes the log entries. -/
def answer (units : List TranslationUnit) (library type : Value) :
    Except Failure (Option QueryType) :=
  match typeName type with
  | .error e => .error e
  | .ok name =>
    (search library (parseName name).1 (parseName name).2 units).map
      (Option.map ({ · with name := name }))

theorem run_lookup {σ : Type} [HasLog σ] (units : List TranslationUnit) (library type : Value)
    (st : σ) : ((lookup units library type).run st).1 = answer units library type := by
  rw [lookup, answer]
  cases typeName type with
  | error e => rfl
  | ok name =>
    simp only [Task.ofExcept_ok_bind]
    cases search library (parseName name).1 (parseName name).2 units with
    | error e => rfl
    | ok found => cases found <;> rfl

/-- A text is answered with the identity of the type that the lookup goes through, deeper by the
stars that lead the text. -/
theorem answer_text_eq_some {found : QueryType} :
    answer units library (.text name) = .ok (some found) ↔ ∃ u decl i,
      Through units library name u decl ∧ u.identity? (u.typeOf decl) = some i ∧
        found = ⟨i.usr, i.depth + leadingStars name, name⟩ := by
  have hanswer : answer units library (.text name) =
      (search library (parseName name).1 (parseName name).2 units).map
        (Option.map ({ · with name := name })) := rfl
  constructor
  · intro h
    rw [hanswer] at h
    cases hsearch : search library (parseName name).1 (parseName name).2 units with
    | error e =>
      rw [hsearch] at h
      cases h
    | ok o =>
      cases o with
      | none =>
        rw [hsearch] at h
        cases h
      | some identity =>
        obtain ⟨header, before, u, after, i, hlibrary, hunits, hbefore, hfirst, rfl⟩ :=
          exists_first_of_search hsearch
        obtain ⟨hincludes, table, decl, htable, hfind, hi⟩ := lookup?_eq_some.mp hfirst
        rw [hsearch, parseName_fst] at h
        cases h
        exact ⟨u, decl, i, ⟨header, before, after, table, hlibrary, hunits, hbefore, hincludes,
          htable, hfind⟩, hi, rfl⟩
  · rintro ⟨u, decl, i, ⟨header, before, after, table, hlibrary, rfl, hbefore, hincludes, htable,
      hfind⟩, hi, rfl⟩
    have hfirst := lookup?_eq_some.mpr ⟨hincludes, table, decl, htable, hfind, hi⟩
    rw [hanswer, search_of_first _ hlibrary hbefore hfirst, parseName_fst]
    rfl

/-- Stars before a name add to the depth of the type that the name alone is looked up as. -/
theorem answer_of_through {usr : String} {d : Nat} (hg : u.Grounded)
    (h : Through units library q u decl) (hdenotes : u.Denotes (u.typeOf decl) usr d) (n : Nat) :
    answer units library (.text (stars n ++ q)) =
      .ok (some ⟨usr, ((n + leadingStars q + d : Nat) : Int), stars n ++ q⟩) := by
  obtain ⟨shown, hi⟩ := TranslationUnit.identity?_of_denotes hg hdenotes
  refine answer_text_eq_some.mpr ⟨u, decl, _, h.stars n, hi, ?_⟩
  have hdepth : ((n + leadingStars q + d : Nat) : Int) =
      (d : Int) + (leadingStars (stars n ++ q) : Nat) := by
    rw [leadingStars_stars]
    omega
  rw [hdepth]

end TypeLookup

theorem QueryType.same_trans {a b c : QueryType} (hab : a.same b = true)
    (hbc : b.same c = true) : a.same c = true := by
  simp only [same, Bool.and_eq_true, decide_eq_true_eq] at *
  exact ⟨hab.1.trans hbc.1, hab.2.trans hbc.2⟩

namespace Registry

variable {σ : Type} [HasLog σ] {lookup : Value → Value → Task σ (Option QueryType)}
  {answer : Value → Value → Except Failure (Option QueryType)} {r r' : Registry}
  {pairs : List (Value × Value)} {t : QueryType} {st st' : σ}

theorem contains_add (r : Registry) (found t : QueryType) :
    (r.add found).contains t = true ↔ r.contains t = true ∨ t.same found = true := by
  unfold add
  split
  next hold =>
    constructor
    · exact .inl
    · rintro (h | h)
      · exact h
      · obtain ⟨old, hmem, hsame⟩ := List.any_eq_true.mp hold
        exact List.any_eq_true.mpr ⟨old, hmem, QueryType.same_trans h hsame⟩
  next => simp [contains]

theorem register_eq_ok {library type : Value} {o : Option QueryType}
    (h : (r.register lookup library type).run st = (.ok (o, r'), st')) :
    ((lookup library type).run st).1 = .ok o ∧ r' = o.elim r r.add := by
  unfold register at h
  split at h
  next => cases h
  next =>
    obtain ⟨found, mid, hlookup, hrest⟩ := Task.run_bind_eq_ok h
    rw [hlookup]
    cases found with
    | none =>
      cases hrest
      exact ⟨rfl, rfl⟩
    | some found =>
      cases hrest
      exact ⟨rfl, rfl⟩

theorem contains_registerAll
    (hanswer : ∀ library type st, ((lookup library type).run st).1 = answer library type)
    (h : (r.registerAll lookup pairs).run st = (.ok r', st')) :
    r'.contains t = true ↔ r.contains t = true ∨
      ∃ p ∈ pairs, ∃ found, answer p.1 p.2 = .ok (some found) ∧ t.same found = true := by
  induction pairs generalizing r st with
  | nil =>
    cases h
    simp
  | cons pair rest ih =>
    obtain ⟨⟨o, mid⟩, _, hregister, hrest⟩ := Task.run_bind_eq_ok h
    obtain ⟨hlookup, rfl⟩ := register_eq_ok hregister
    rw [hanswer] at hlookup
    rw [ih hrest]
    cases o with
    | none => simp [hlookup]
    | some found => simp [hlookup, contains_add, or_assoc]

theorem contains_build
    (hanswer : ∀ library type st, ((lookup library type).run st).1 = answer library type)
    (h : ((build lookup pairs).run st).1 = .ok r) :
    r.contains t = true ↔
      ∃ p ∈ pairs, ∃ found, answer p.1 p.2 = .ok (some found) ∧ t.same found = true := by
  obtain ⟨st', hrun⟩ : ∃ st', (build lookup pairs).run st = (.ok r, st') := ⟨_, Prod.ext h rfl⟩
  obtain ⟨unfrozen, _, hall, hrest⟩ := Task.run_bind_eq_ok hrun
  cases hrest
  have hcontains := contains_registerAll (t := t) hanswer hall
  have hempty : ({} : Registry).contains t = false := rfl
  rw [hempty] at hcontains
  have hfreeze : unfrozen.freeze.contains t = unfrozen.contains t := rfl
  rw [hfreeze]
  simpa using hcontains

theorem frozen_add (r : Registry) (t : QueryType) : (r.add t).frozen = r.frozen := by
  unfold add
  split <;> rfl

/-- Apart from the lookup, a registration only writes to the log. -/
theorem run_register_of_open {library type : Value} {o : Option QueryType} {st mid : σ}
    (hopen : r.frozen = false) (h : (lookup library type).run st = (.ok o, mid)) :
    (r.register lookup library type).run st = (.ok (o, o.elim r r.add), mid) ∨
      ∃ entry, (r.register lookup library type).run st =
        (.ok (o, o.elim r r.add), HasLog.append entry mid) := by
  rw [register, hopen]
  simp only [Bool.false_eq_true, if_false]
  rw [Task.run_bind_ok h]
  cases o with
  | none => exact .inl rfl
  | some found => exact .inr ⟨_, rfl⟩

theorem register_of_answer {library type : Value} {o : Option QueryType} (hopen : r.frozen = false)
    (h : ((lookup library type).run st).1 = .ok o) :
    ∃ st', (r.register lookup library type).run st = (.ok (o, o.elim r r.add), st') := by
  have hlookup : (lookup library type).run st = (.ok o, ((lookup library type).run st).2) :=
    Prod.ext h rfl
  obtain hregister | ⟨_, hregister⟩ := run_register_of_open hopen hlookup
  · exact ⟨_, hregister⟩
  · exact ⟨_, hregister⟩

/-- Pairs that are all answered make a registry. -/
theorem exists_registerAll
    (hanswer : ∀ library type st, ((lookup library type).run st).1 = answer library type)
    (hall : ∀ p ∈ pairs, ∃ o, answer p.1 p.2 = .ok o) (hopen : r.frozen = false) (st : σ) :
    ∃ r' st', (r.registerAll lookup pairs).run st = (.ok r', st') := by
  induction pairs generalizing r st with
  | nil => exact ⟨r, st, rfl⟩
  | cons pair rest ih =>
    obtain ⟨o, ho⟩ := hall pair List.mem_cons_self
    have hlookup := (hanswer pair.1 pair.2 st).trans ho
    obtain ⟨mid, hregister⟩ := register_of_answer hopen hlookup
    have hopen' : (o.elim r r.add).frozen = false := by
      cases o with
      | none => exact hopen
      | some found => exact (frozen_add r found).trans hopen
    obtain ⟨r', st', hrest⟩ := ih (fun p hp => hall p (List.mem_cons_of_mem pair hp)) hopen' mid
    exact ⟨r', st', (Task.run_bind_ok hregister).trans hrest⟩

theorem exists_build
    (hanswer : ∀ library type st, ((lookup library type).run st).1 = answer library type)
    (hall : ∀ p ∈ pairs, ∃ o, answer p.1 p.2 = .ok o) (st : σ) :
    ∃ r, ((build lookup pairs).run st).1 = .ok r := by
  have hopen : ({} : Registry).frozen = false := rfl
  obtain ⟨r, mid, hregister⟩ := exists_registerAll hanswer hall hopen st
  exact ⟨r.freeze, congrArg Prod.fst (Task.run_bind_ok hregister)⟩

theorem matchesType_iff {u : TranslationUnit} {t : CxxType} (hg : u.Grounded) :
    r.matchesType u t = true ↔
      ∃ usr n, u.Denotes t usr n ∧ r.contains { usr := usr, depth := (n : Nat) } = true := by
  unfold matchesType
  cases hi : u.identity? t with
  | none =>
    constructor
    · intro h
      cases h
    · rintro ⟨usr, n, hdenotes, _⟩
      obtain ⟨name, hsome⟩ := TranslationUnit.identity?_of_denotes hg hdenotes
      cases hi.symm.trans hsome
  | some i =>
    constructor
    · intro h
      obtain ⟨n, hdepth, hdenotes⟩ := TranslationUnit.denotes_of_identity? hg hi
      refine ⟨i.usr, n, hdenotes, ?_⟩
      rw [← hdepth]
      exact h
    · rintro ⟨usr, n, hdenotes, hcontains⟩
      obtain ⟨name, hsome⟩ := TranslationUnit.identity?_of_denotes hg hdenotes
      cases hi.symm.trans hsome
      exact hcontains

section Matching

variable {u : TranslationUnit} {ty : CxxType} {library type : Value} {usr name : String} {n : Nat}

theorem matchesType_of_answer
    (hanswer : ∀ library type st, ((lookup library type).run st).1 = answer library type)
    (hbuild : ((build lookup pairs).run st).1 = .ok r) (hmem : (library, type) ∈ pairs)
    (hpair : answer library type = .ok (some ⟨usr, n, name⟩)) (hg : u.Grounded)
    (hdenotes : u.Denotes ty usr n) : r.matchesType u ty = true := by
  refine (matchesType_iff hg).mpr ⟨usr, n, hdenotes, ?_⟩
  refine (contains_build hanswer hbuild).mpr ⟨_, hmem, _, hpair, ?_⟩
  simp [QueryType.same]

theorem matchesType_iff_of_only_answer
    (hanswer : ∀ library type st, ((lookup library type).run st).1 = answer library type)
    (hbuild : ((build lookup [(library, type)]).run st).1 = .ok r)
    (hpair : answer library type = .ok (some ⟨usr, n, name⟩)) (hg : u.Grounded) :
    r.matchesType u ty = true ↔ u.Denotes ty usr n := by
  constructor
  · intro hmatch
    obtain ⟨usr', m, hdenotes, hcontains⟩ := (matchesType_iff hg).mp hmatch
    obtain ⟨p, hp, found, hfound, hsame⟩ := (contains_build hanswer hbuild).mp hcontains
    rw [List.mem_singleton.mp hp] at hfound
    cases hpair.symm.trans hfound
    simp only [QueryType.same, Bool.and_eq_true, decide_eq_true_eq] at hsame
    have husr : usr' = usr := hsame.1
    have hdepth : m = n := Int.ofNat_inj.mp hsame.2
    rw [← husr, ← hdepth]
    exact hdenotes
  · exact matchesType_of_answer hanswer hbuild (List.mem_singleton_self _) hpair hg

end Matching

open TypeLookup in
/-- A registered name with stars before it stands for that many pointers around the type that the
name alone is looked up as: the types that are such pointers match, and no others do when nothing
else is registered. -/
theorem matches_pointers_of_lookup {units : List TranslationUnit} {library : Value} {q : String}
    {found : QueryType} (hunits : ∀ u ∈ units, u.Grounded)
    (hlookup : ((TypeLookup.lookup units library (.text q)).run st).1 = .ok (some found))
    (n : Nat) :
    ∃ u decl usr d, Through units library q u decl ∧ u.Denotes (u.typeOf decl) usr d ∧
      (∀ pairs r (s : σ), (library, .text (stars n ++ q)) ∈ pairs →
        ((build (TypeLookup.lookup units) pairs).run s).1 = .ok r →
        ∀ v t x, v.Grounded → v.IsPointer (n + leadingStars q) t x →
          (v.canonical x).kind.isReference = false → v.Denotes x usr d →
          r.matchesType v t = true) ∧
      ∀ s : σ, ∃ r,
        ((build (TypeLookup.lookup units) [(library, .text (stars n ++ q))]).run s).1 = .ok r ∧
        ∀ v t, v.Grounded →
          (r.matchesType v t = true ↔ v.Denotes t usr (n + leadingStars q + d)) ∧
          ∀ usr' m, v.Denotes t usr' m → usr' ≠ usr → r.matchesType v t = false := by
  have hanswer := run_lookup (σ := σ) units
  rw [hanswer] at hlookup
  obtain ⟨u, decl, i, hthrough, hi, _⟩ := answer_text_eq_some.mp hlookup
  have hg := hunits u hthrough.mem
  obtain ⟨d, _, hdenotes⟩ := TranslationUnit.denotes_of_identity? hg hi
  have hpair := answer_of_through hg hthrough hdenotes n
  refine ⟨u, decl, i.usr, d, hthrough, hdenotes, ?_, ?_⟩
  · intro pairs r s hmem hbuild v t x hv hpointer hx hsame
    exact matchesType_of_answer hanswer hbuild hmem hpair hv (hpointer.denotes hx hsame)
  · intro s
    have hall : ∀ p ∈ [(library, Value.text (stars n ++ q))],
        ∃ o, answer units p.1 p.2 = .ok o := by
      intro p hp
      rw [List.mem_singleton.mp hp]
      exact ⟨_, hpair⟩
    obtain ⟨r, hbuild⟩ := exists_build hanswer hall s
    refine ⟨r, hbuild, fun v t hv => ?_⟩
    have hmatches : r.matchesType v t = true ↔ v.Denotes t i.usr (n + leadingStars q + d) :=
      matchesType_iff_of_only_answer hanswer hbuild hpair hv
    refine ⟨hmatches, fun usr' m hother hne => ?_⟩
    cases hmatch : r.matchesType v t with
    | false => rfl
    | true => exact absurd (hother.unique hv (hmatches.mp hmatch)).1 hne

end Registry

namespace HandleTypes

open TranslationUnit TypeLookup

def conn : Node :=
  .mk 1 { kind := .structDecl, spelling := "conn", usr := "c:@S@conn", type := some 0 } []

/-- A name that hides a pointer to the struct. -/
def handle : Node :=
  .mk 2 { kind := .typedefDecl, spelling := "Handle", usr := "c:@T@Handle", type := some 2 } []

/-- Another type of that name. -/
def other : Node :=
  .mk 4 { kind := .structDecl, spelling := "Handle", usr := "c:@N@p@S@Handle", type := some 7 } []

def scope : Node :=
  .mk 3 { kind := .namespaceDecl, spelling := "p" } [other]

def unit : TranslationUnit where
  nodes := #[.mk 0 { kind := .other "TRANSLATION_UNIT" } [conn, handle, scope], conn, handle, scope,
    other]
  types :=
    #[{ kind := .other "RECORD", spelling := "conn", declaration := some 1 },
      { kind := .pointer, spelling := "conn *", pointee := some 0 },
      { kind := .other "TYPEDEF", spelling := "Handle", canonical := some 1
        declaration := some 2 },
      { kind := .pointer, spelling := "Handle *", canonical := some 4, pointee := some 2 },
      { kind := .pointer, spelling := "conn **", pointee := some 1 },
      { kind := .lvalueReference, spelling := "Handle *&", canonical := some 6
        pointee := some 3 },
      { kind := .lvalueReference, spelling := "conn **&", pointee := some 4 },
      { kind := .other "RECORD", spelling := "p::Handle", declaration := some 4 },
      { kind := .pointer, spelling := "p::Handle *", pointee := some 7 }]
  includes := ["pool.h"]

theorem grounded : unit.Grounded :=
  grounded_of_descending (by decide)

theorem denotes_handle : unit.Denotes (unit.type 2) "c:@S@conn" 1 :=
  ⟨by decide, unit.type 2, unit.type 0, .name rfl, rfl, .pointer rfl ⟨0, rfl, rfl⟩ (.name rfl),
    by decide, 1, _, rfl, rfl, by decide, rfl, by decide⟩

theorem denotes_other : unit.Denotes (unit.type 8) "c:@N@p@S@Handle" 1 :=
  ⟨by decide, unit.type 8, unit.type 7, .name rfl, rfl, .pointer rfl ⟨7, rfl, rfl⟩ (.name rfl),
    by decide, 4, _, rfl, rfl, by decide, rfl, by decide⟩

theorem isPointer_reference : unit.IsPointer 1 (unit.type 5) (unit.type 2) :=
  ⟨by decide, unit.type 3, .reference rfl ⟨4, rfl, rfl⟩ (.name rfl),
    .pointer rfl ⟨1, rfl, rfl⟩ (.name rfl)⟩

theorem parseName_handle : parseName "Handle" = (0, "Handle") := by
  decide +kernel

theorem typeTable_unit : unit.typeTable =
    .ok [("conn", conn), ("Handle", handle), ("p::Handle", other)] := rfl

theorem through_iff {u : TranslationUnit} {decl : Node} :
    Through [unit] (.text "pool.h") "Handle" u decl ↔ u = unit ∧ decl = handle := by
  have hfind : [("conn", conn), ("Handle", handle), ("p::Handle", other)].find?
      (·.1 = "Handle") = some ("Handle", handle) := rfl
  constructor
  · rintro ⟨_, before, after, table, _, hunits, _, _, htable, hentry⟩
    have hu : u = unit := by
      have hmem : u ∈ [unit] := by
        rw [hunits]
        simp
      exact List.mem_singleton.mp hmem
    subst hu
    rw [typeTable_unit] at htable
    cases htable
    rw [parseName_handle, hfind] at hentry
    cases hentry
    exact ⟨rfl, rfl⟩
  · rintro ⟨rfl, rfl⟩
    refine ⟨"pool.h", [], [], _, rfl, rfl, by simp, by decide, typeTable_unit, ?_⟩
    rw [parseName_handle]
    exact hfind

/-- A reference to a pointer to the handle matches the handle with one star; a pointer to the other
type of the handle's name does not. -/
theorem starred_handle_matches :
    (∀ u ∈ [unit], u.Grounded) ∧
      ((lookup [unit] (.text "pool.h") (.text "Handle")).run (#[] : Log)).1 =
        .ok (some ⟨"c:@S@conn", 1, "Handle"⟩) ∧
      ∃ r, ((Registry.build (lookup [unit])
          [(.text "pool.h", .text (stars 1 ++ "Handle"))]).run (#[] : Log)).1 = .ok r ∧
        r.matchesType unit (unit.type 5) = true ∧ r.matchesType unit (unit.type 8) = false := by
  have hunits : ∀ u ∈ [unit], u.Grounded := by simpa using grounded
  have hlookup : ((lookup [unit] (.text "pool.h") (.text "Handle")).run (#[] : Log)).1 =
      .ok (some ⟨"c:@S@conn", 1, "Handle"⟩) := by
    rw [run_lookup]
    exact answer_text_eq_some.mpr ⟨unit, handle, ⟨"c:@S@conn", 1, "conn"⟩,
      through_iff.mpr ⟨rfl, rfl⟩, rfl, rfl⟩
  obtain ⟨u, decl, usr, d, hthrough, hdenotes, hpairs, honly⟩ :=
    Registry.matches_pointers_of_lookup hunits hlookup 1
  obtain ⟨rfl, rfl⟩ := through_iff.mp hthrough
  obtain ⟨rfl, rfl⟩ := denotes_handle.unique grounded hdenotes
  obtain ⟨r, hbuild, hmatches⟩ := honly #[]
  refine ⟨hunits, hlookup, r, hbuild, ?_, ?_⟩
  · exact hpairs _ r #[] (List.mem_singleton_self _) hbuild unit _ _ grounded isPointer_reference
      rfl denotes_handle
  · exact (hmatches unit _ grounded).2 _ _ denotes_other (by decide)

end HandleTypes

end NPlusOne
