import Mathlib.Data.Set.Finite.Basic
import NPlusOne.Project
import NPlusOne.Proofs.PathSpelling

namespace NPlusOne

namespace Path

/-- The components of the root, its leading slashes among them, begin those of the path. -/
def LiesUnder (root path : String) : Prop :=
  rootSlashes root = rootSlashes path ∧ components root <+: components path

theorem LiesUnder.refl (path : String) : LiesUnder path path :=
  ⟨rfl, List.prefix_rfl⟩

theorem replicate_prefix_iff {c : Char} {chars : List Char} (hc : chars.head? ≠ some c)
    (n m : Nat) : List.replicate n c <+: List.replicate m c ++ chars ↔ n ≤ m := by
  induction n generalizing m with
  | zero => simp
  | succ n ih =>
    cases m with
    | zero =>
      refine iff_of_false ?_ (Nat.not_succ_le_zero n)
      rintro ⟨rest, rfl⟩
      exact hc rfl
    | succ m =>
      rw [List.replicate_succ, List.replicate_succ, List.cons_append, List.cons_prefix_cons,
        ih, Nat.succ_le_succ_iff]
      simp

/-- There are more names than any list has. -/
theorem exists_fresh_name (names : List String) : ∃ name, IsName name ∧ name ∉ names := by
  have hinj : Function.Injective fun n => String.ofList (List.replicate (n + 1) 'a') := by
    intro n m heq
    simpa using congrArg String.length heq
  obtain ⟨_, ⟨n, rfl⟩, hfresh⟩ :=
    (Set.infinite_range_of_injective hinj).exists_notMem_finset names.toFinset
  have hhead : ∀ text : String, text.toList.head? ≠ some 'a' →
      String.ofList (List.replicate (n + 1) 'a') ≠ text := by
    rintro text htext rfl
    exact htext (by simp [List.replicate_succ])
  exact ⟨_, ⟨hhead "" (by decide), hhead "." (by decide), hhead ".." (by decide), by simp⟩,
    by simpa using hfresh⟩

variable {root path : String} {k m : Nat} {parts others : List String}

/-- The root of all paths is continued by a further slash only. -/
theorem Spelt.continues_bare (hr : Spelt root k []) (hp : Spelt path m others) :
    Text.startsWith (root ++ "/").toList path.toList = true ↔ k < m := by
  have htext : (root ++ "/").toList = List.replicate (k + 1) '/' := by
    simp [String.toList_append, hr.text, spelled, List.replicate_succ']
  rw [Text.startsWith_iff, htext, hp.text, spelled,
    replicate_prefix_iff (head?_intercalate hp.mem)]
  rfl

theorem spelled_append (k : Nat) (hparts : parts ≠ []) (hothers : others ≠ []) :
    spelled k (parts ++ others) =
      spelled k parts ++ '/' :: ['/'].intercalate (others.map String.toList) := by
  have hjoin := congrArg String.toList
    (String.intercalate_append_of_ne_nil (s := "/") hparts hothers)
  simp only [String.toList_append, String.toList_intercalate] at hjoin
  simpa [spelled] using hjoin

theorem Spelt.unique (hr : Spelt root k parts) (hp : Spelt path k parts) : root = path := by
  rw [← String.toList_inj, hr.text, hp.text]

/-- Another path continues a path behind a slash if its components begin with those of the path. -/
theorem Spelt.continues (hr : Spelt root k parts) (hparts : parts ≠ []) (hp : Spelt path m others)
    (hne : path ≠ root) :
    Text.startsWith (root ++ "/").toList path.toList = true ↔ k = m ∧ parts <+: others := by
  rw [Text.startsWith_iff, String.toList_append]
  constructor
  · rintro ⟨rest, htext⟩
    have htext : path.toList = root.toList ++ '/' :: (String.ofList rest).toList := by
      simpa using htext.symm
    obtain rfl : m = k :=
      hp.rootSlashes.symm.trans (hr.rootSlashes_append hparts (hr.text ▸ htext))
    have hpieces := pieces_append htext
    rw [hp.pieces, hr.pieces, if_neg hparts, List.append_assoc] at hpieces
    have hpieces := List.append_cancel_left hpieces
    refine ⟨rfl, Path.pieces (String.ofList rest), ?_⟩
    split at hpieces
    next =>
      -- A bare path has one piece, which is empty, and the root begins with none of that kind.
      obtain ⟨part, rest, rfl⟩ := List.exists_cons_of_ne_nil hparts
      have hpart := (hr.mem part List.mem_cons_self).1
      exact absurd (List.cons.inj hpieces).1.symm hpart
    next => exact hpieces.symm
  · rintro ⟨rfl, more, rfl⟩
    have hmore : more ≠ [] := by
      rintro rfl
      rw [List.append_nil] at hp
      exact hne (hp.unique hr)
    rw [hp.text, hr.text, spelled_append k hparts hmore]
    exact ⟨['/'].intercalate (more.map String.toList), by simp⟩

theorem Spelt.eq_root_iff (hr : Spelt root k parts) : root = "/" ↔ k = 1 ∧ parts = [] := by
  constructor
  · rintro rfl
    exact ⟨hr.rootSlashes.symm, hr.components.symm⟩
  · rintro ⟨rfl, rfl⟩
    exact hr.unique FileTree.spelt_root

end Path

namespace Project

/-- What a root of the project covers: itself; below it, all that lies under it if it has a name;
and if it is the root of all paths, only what begins with two slashes. -/
def Covers (root path : String) : Prop :=
  path = root ∨ Path.components root ≠ [] ∧ Path.LiesUnder root path ∨
    root = "/" ∧ Path.rootSlashes path = 2

/-- A path in the form in which the project keeps its own. -/
structure Settled (path : String) : Prop where
  normal : Path.Normal path
  absolute : Path.isAbsolute path = true

theorem Settled.of_absolute (files : FileTree) (path : String) : Settled (files.absolute path) :=
  ⟨files.normal_absolute path, files.isAbsolute_absolute path⟩

theorem under_iff {root path : String} (hr : Settled root) (hp : Settled path) :
    under root path = true ↔ Covers root path := by
  obtain ⟨k, parts, hk, hroot⟩ := Path.exists_spelt hr.normal hr.absolute
  obtain ⟨m, others, _, hpath⟩ := Path.exists_spelt hp.normal hp.absolute
  have hm := hpath.bound
  simp only [under, Bool.or_eq_true, decide_eq_true_eq, Covers, Path.LiesUnder,
    hroot.rootSlashes, hroot.components, hpath.rootSlashes, hpath.components, hroot.eq_root_iff]
  refine or_congr_right' fun hne => ?_
  by_cases hparts : parts = []
  · subst hparts
    rw [hroot.continues_bare hpath]
    simp only [ne_eq, not_true_eq_false, false_and, and_true, false_or]
    omega
  · rw [hroot.continues hparts hpath hne]
    simp [hparts]

theorem covers_iff_liesUnder {root path : String} (hr : Path.components root ≠ []) :
    Covers root path ↔ Path.LiesUnder root path := by
  constructor
  · rintro (rfl | ⟨_, h⟩ | ⟨rfl, _⟩)
    · exact .refl path
    · exact h
    · exact absurd rfl hr
  · exact fun h => .inr (.inl ⟨hr, h⟩)

/-- The path is a source of the project or has one of its roots above it. -/
def Includes (p : Project) (above : String → String → Prop) (path : String) : Prop :=
  path ∈ p.sources ∨ ∃ root ∈ p.roots, above root path

section Make

variable (files : FileTree) (sources : List String) (roots : Option (List String))

theorem settled_of_mem_roots {root : String} (h : root ∈ (make files sources roots).roots) :
    Settled root := by
  obtain ⟨named, _, rfl⟩ := List.mem_map.mp h
  exact .of_absolute files named

theorem holds_iff_covers (path : String) : (make files sources roots).holds files path = true ↔
    (make files sources roots).Includes Covers (files.absolute path) := by
  simp only [holds, Bool.or_eq_true, List.contains_iff_mem, List.any_eq_true, Includes]
  refine or_congr_right (exists_congr fun root => and_congr_right fun hroot => ?_)
  exact under_iff (settled_of_mem_roots files sources roots hroot) (.of_absolute files path)

end Make

/-- A new name below a bare root lies under it, but nothing covers it unless the root `/` covers
what begins with two slashes. -/
theorem exists_not_covered (p : Project) {bare : String} {k : Nat} (hk : 0 < k)
    (hbare : Path.Spelt bare k []) (hroot : k = 1 ∨ "/" ∉ p.roots) :
    ∃ path, Settled path ∧ Path.LiesUnder bare path ∧ ¬ p.Includes Covers path := by
  obtain ⟨name, hname, hfresh⟩ :=
    Path.exists_fresh_name ((p.sources ++ p.roots).flatMap Path.components)
  have hpath : Path.Spelt (Path.join bare name) k [name] := hbare.join hname
  have hne : Path.join bare name ≠ "" := fun hempty => by simpa using hpath.eq_empty.mp hempty
  have hother : ∀ text ∈ p.sources ++ p.roots, name ∉ Path.components text :=
    fun text hm hin => hfresh (List.mem_flatMap.mpr ⟨text, hm, hin⟩)
  refine ⟨Path.join bare name, ⟨hpath.normal hne, ?_⟩, ⟨?_, ?_⟩, ?_⟩
  · simpa [hpath.isAbsolute] using hk
  · rw [hbare.rootSlashes, hpath.rootSlashes]
  · rw [hbare.components]
    exact List.nil_prefix
  · have hself : name ∈ Path.components (Path.join bare name) := by simp [hpath.components]
    rintro (hsource | ⟨root, hm, hsame | ⟨hnamed, _, hparts⟩ | ⟨rfl, hslashes⟩⟩)
    · exact hother _ (List.mem_append_left _ hsource) hself
    · exact hother root (List.mem_append_right _ hm) (hsame ▸ hself)
    · rw [hpath.components] at hparts
      obtain ⟨_, hfirst, _⟩ := (List.prefix_cons_iff.mp hparts).resolve_left hnamed
      exact hother root (List.mem_append_right _ hm) (by simp [hfirst])
    · rw [hpath.rootSlashes] at hslashes
      exact hroot.elim (fun hone => by omega) fun hno => hno hm

/-- Where a root is bare, something lies under a root that nothing covers. -/
theorem exists_liesUnder_not_covered {p : Project} (hs : ∀ root ∈ p.roots, Settled root)
    {root : String} (hroot : root ∈ p.roots) (hbare : Path.components root = []) :
    ∃ path, Settled path ∧ p.Includes Path.LiesUnder path ∧ ¬ p.Includes Covers path := by
  obtain ⟨hnormal, habs⟩ := hs root hroot
  obtain ⟨k, parts, hk, hspelt⟩ := Path.exists_spelt hnormal habs
  obtain rfl : parts = [] := hspelt.components.symm.trans hbare
  -- The root with one slash comes first, as it covers what lies under the one with two.
  by_cases hslash : "/" ∈ p.roots
  · obtain ⟨path, hpath, hunder, hnot⟩ :=
      p.exists_not_covered Nat.one_pos FileTree.spelt_root (.inl rfl)
    exact ⟨path, hpath, .inr ⟨"/", hslash, hunder⟩, hnot⟩
  · obtain ⟨path, hpath, hunder, hnot⟩ := p.exists_not_covered hk hspelt (.inr hslash)
    exact ⟨path, hpath, .inr ⟨root, hroot, hunder⟩, hnot⟩

end Project

namespace Resolver

/-- A path is in the project if it is a source or a root covers it; that is the same as to go by the
components of paths exactly if no root is bare. -/
theorem inProject_iff (frontEnd : FrontEnd) (sources : List String)
    (roots : Option (List String)) :
    let project := Project.make frontEnd.files sources roots
    let r : Resolver := ⟨frontEnd, project⟩
    (∀ path, r.inProject path = true ↔
      project.Includes Project.Covers (frontEnd.files.absolute path)) ∧
    ((∀ path, r.inProject path = true ↔
        project.Includes Path.LiesUnder (frontEnd.files.absolute path)) ↔
      ∀ root ∈ project.roots, Path.components root ≠ []) := by
  intro project r
  have hcovers : ∀ path, r.inProject path = true ↔
      project.Includes Project.Covers (frontEnd.files.absolute path) :=
    Project.holds_iff_covers frontEnd.files sources roots
  refine ⟨hcovers, ?_, ?_⟩
  · intro hagree root hroot hbare
    obtain ⟨path, ⟨hnormal, habs⟩, hunder, hnot⟩ := Project.exists_liesUnder_not_covered
      (fun _ => Project.settled_of_mem_roots frontEnd.files sources roots) hroot hbare
    have hself := frontEnd.files.absolute_of_normal habs hnormal
    have hin := (hagree path).mpr (by rwa [hself])
    rw [hcovers, hself] at hin
    exact hnot hin
  · intro hnamed path
    rw [hcovers]
    exact or_congr_right (exists_congr fun root => and_congr_right fun hroot =>
      Project.covers_iff_liesUnder (hnamed root hroot))

end Resolver

end NPlusOne
