import Mathlib.Data.List.Perm.Subperm
import NPlusOne.Proofs.AnalysisContainment
import NPlusOne.Proofs.CallListing
import NPlusOne.Proofs.NodeSites

namespace NPlusOne

namespace Enumerates

variable {α : Type} {placed placed' : List Nat → α → Prop} {found : List α}

theorem nodup_sites {sites : List (List Nat × α)}
    (h : sites.Pairwise fun x y => List.Lex (· < ·) x.1 y.1) : sites.Nodup := by
  refine h.imp ?_
  rintro x y hlt rfl
  exact irrefl (r := List.Lex (· < ·)) x.1 hlt

/-- A list does not enumerate more sites than it has elements. -/
theorem placed_of_placed (h : Enumerates placed found) (h' : Enumerates placed' found)
    (hsub : ∀ site a, placed site a → placed' site a) {site : List Nat} {a : α}
    (ha : placed' site a) : placed site a := by
  obtain ⟨sites, hfound, hsorted, hmem⟩ := h
  obtain ⟨sites', hfound', _, hmem'⟩ := h'
  have hlength : sites'.length ≤ sites.length := by
    have heq := congrArg List.length (hfound.symm.trans hfound')
    simp only [List.length_map] at heq
    omega
  have hsubset : sites ⊆ sites' := by
    rintro ⟨s, b⟩ hb
    exact (hmem' s b).mpr (hsub s b ((hmem s b).mp hb))
  have hperm := ((nodup_sites hsorted).subperm hsubset).perm_of_length_le hlength
  exact (hmem site a).mp (hperm.mem_iff.mpr ((hmem' site a).mpr ha))

end Enumerates

namespace Node

/-- The site leads to a loop of the file, past whatever nodes. -/
def LoopAt (file : String) (n : Node) (site : List Nat) (m : Node) : Prop :=
  ∃ above, n.Descent site above m ∧ m.IsLoopOf file

/-- The site leads to a loop of the file, past nodes of that file only. -/
def LoopWithin (file : String) (n : Node) (site : List Nat) (m : Node) : Prop :=
  ∃ above, n.Descent site above m ∧ (∀ x ∈ above, x.file? = some file) ∧ m.IsLoopOf file

variable {file : String} {n m : Node} {site : List Nat}

theorem LoopWithin.loopAt (h : n.LoopWithin file site m) : n.LoopAt file site m := by
  obtain ⟨above, hdescent, _, hm⟩ := h
  exact ⟨above, hdescent, hm⟩

end Node

namespace TranslationUnit

/-- The site leads from the top of the unit to a loop of the file. -/
def LoopAt (u : TranslationUnit) (file : String) : List Nat → Node → Prop :=
  Among (Node.LoopAt file) u.root.subtrees

/-- The site leads from the top of the unit to a loop of the file, past nodes of that file only. -/
def LoopWithin (u : TranslationUnit) (file : String) : List Nat → Node → Prop :=
  Among (Node.LoopWithin file) u.root.subtrees

variable {u : TranslationUnit} {path file : String}

theorem LoopWithin.loopAt {site : List Nat} {m : Node} (h : u.LoopWithin file site m) :
    u.LoopAt file site m := by
  obtain ⟨i, rest, c, hsite, hc, hm⟩ := h
  exact ⟨i, rest, c, hsite, hc, hm.loopAt⟩

theorem enumerates_loops {found : List Node} (h : u.loops path = .ok found) :
    Enumerates (u.LoopWithin (Path.normalize path)) found :=
  (Node.finds_loopsIn _).enumerates_children h

/-- Where the front end fails at no node that is looked at, the loops of a file are listed in source
order, each once, as far as all that is around them lies in the file too; these are all its loops
exactly if no loop of the file stands in a node of another. -/
theorem loops_listed (h : ∀ m, u.Shows path m → m.info.failure = none) :
    ∃ found, u.loops path = .ok found ∧
      Enumerates (u.LoopWithin (Path.normalize path)) found ∧
      (Enumerates (u.LoopAt (Path.normalize path)) found ↔
        ∀ site m, u.LoopAt (Path.normalize path) site m →
          u.LoopWithin (Path.normalize path) site m) := by
  cases hfound : u.loops path with
  | error e =>
    obtain ⟨m, reason, hm, hf, _⟩ := torn_of_loops hfound
    cases hf.symm.trans (h m hm)
  | ok found =>
    have hwithin := enumerates_loops hfound
    refine ⟨found, rfl, hwithin, ?_, ?_⟩
    · intro hall site m hm
      exact hwithin.placed_of_placed hall (fun _ _ => LoopWithin.loopAt) hm
    · intro hall
      exact hwithin.of_iff fun site m => ⟨LoopWithin.loopAt, hall site m⟩

end TranslationUnit

namespace Sample

/-- A header opens the namespace around the first loop; another loop stands inside the second. -/
def headed : TranslationUnit where
  nodes := #[.mk 0 { kind := .other "TRANSLATION_UNIT" }
    [.mk 1 { kind := .namespaceDecl, place := some ⟨"open.h", 1, 11, 10⟩ } [loop 2 (place 20) []],
      loop 3 (place 30) [loop 4 (place 34) []]]]

theorem headed_loops_listed :
    (∀ m, headed.Shows "a.cpp" m → m.info.failure = none) ∧
    ∃ found, headed.loops "a.cpp" = .ok found ∧
      Enumerates (headed.LoopWithin (Path.normalize "a.cpp")) found ∧
      ¬ Enumerates (headed.LoopAt (Path.normalize "a.cpp")) found := by
  have hfound : headed.loops "a.cpp" =
      .ok [loop 3 (place 30) [loop 4 (place 34) []], loop 4 (place 34) []] := rfl
  have hwhole : ∀ m, headed.Shows "a.cpp" m → m.info.failure = none :=
    fun m hm => TranslationUnit.whole_of_loops hfound hm
  obtain ⟨found, hloops, hwithin, hall⟩ := TranslationUnit.loops_listed hwhole
  refine ⟨hwhole, found, hloops, hwithin, fun henum => ?_⟩
  have hat : headed.LoopAt (Path.normalize "a.cpp") [0, 0] (loop 2 (place 20) []) :=
    ⟨0, [0], _, rfl, rfl, _, .down rfl (.here _), .inl rfl, rfl⟩
  obtain ⟨_, _, _, hsite, hc, _, hdescent, habove, _⟩ := hall.mp henum _ _ hat
  cases hsite
  cases hc
  cases hdescent with
  | down => exact absurd (habove _ List.mem_cons_self) (by decide)

end Sample

end NPlusOne
