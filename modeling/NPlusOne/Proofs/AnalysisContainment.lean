import NPlusOne.Proofs.AnalysisChecks
import NPlusOne.Proofs.ExtractedNodes
import NPlusOne.Proofs.SearchFailure

namespace NPlusOne

namespace Node

variable {file : String}

/-- The second node is looked at when the loops below the first one are listed: all nodes on the way
lie in the file, and those above it can be listed. -/
inductive Shows (file : String) : Node → Node → Prop
  | self {n : Node} : n.isIn file = true → Shows file n n
  | under {n c m : Node} {ns : List Node} : n.isIn file = true → n.children = .ok ns → c ∈ ns →
    Shows file c m → Shows file n m

/-- Below a node whose loops can be listed, no node that is looked at is torn. -/
theorem Shows.whole {n m : Node} (h : Shows file n m) {found : List Node}
    (hl : loopsIn file n = .ok found) : m.info.failure = none := by
  induction h generalizing found with
  | self hin =>
    obtain ⟨_, _, ⟨hout, _⟩ | ⟨_, _, hns, _⟩⟩ := (finds_loopsIn file).search_eq_ok hl
    · exact absurd (isIn_iff.mp hin) hout
    · exact failure_of_children hns
  | under hin hc hmem _ ih =>
    obtain ⟨_, _, ⟨hout, _⟩ | ⟨_, _, _, hall, _⟩⟩ := (finds_loopsIn file).search_eq_ok hl
    · exact absurd (isIn_iff.mp hin) hout
    · rw [subtrees_of_children hc] at hmem
      obtain ⟨these, hthese⟩ := (finds_loopsIn file).exists_of_mem hall hmem
      exact ih hthese

end Node

namespace TranslationUnit

/-- The node is looked at when the loops of a file are listed. -/
def Shows (u : TranslationUnit) (path : String) (m : Node) : Prop :=
  m = u.root ∨ ∃ ns, u.root.children = .ok ns ∧ ∃ c ∈ ns, Node.Shows (Path.normalize path) c m

variable {u : TranslationUnit} {path : String}

/-- The loops of a file cannot be listed where a node that is looked at is torn. -/
theorem torn_of_loops {e : Failure} (h : u.loops path = .error e) :
    ∃ m reason, u.Shows path m ∧ m.info.failure = some reason ∧ e = .children reason := by
  rcases except_bind_eq_error.mp h with hroot | ⟨ns, hns, hall⟩
  · obtain ⟨reason, hf, he⟩ := Node.children_eq_error.mp hroot
    exact ⟨u.root, reason, .inl rfl, hf, he⟩
  · obtain ⟨c, hc, m, hm, hme⟩ := (Node.finds_loopsIn _).exists_torn
      (fun hn => Node.Shows.self (Node.isIn_iff.mpr hn))
      (fun hn => .under (Node.isIn_iff.mpr hn)) hall
    obtain ⟨reason, hf, he⟩ := Node.children_eq_error.mp hme
    exact ⟨m, reason, .inr ⟨ns, hns, c, hc, hm⟩, hf, he⟩

theorem whole_of_loops {found : List Node} (h : u.loops path = .ok found) {m : Node}
    (hm : u.Shows path m) : m.info.failure = none := by
  obtain ⟨ns, hns, hall⟩ := except_bind_eq_ok.mp h
  rcases hm with rfl | ⟨ns', hns', c, hc, hm⟩
  · exact Node.failure_of_children hns
  · cases hns.symm.trans hns'
    obtain ⟨these, hthese⟩ := (Node.finds_loopsIn _).exists_of_mem hall hc
    exact hm.whole hthese

end TranslationUnit

namespace Analyzer

variable {a : Analyzer} {files : FileTree}

/-- The marker is a text, and the lines that reports point at can be looked up. -/
def Legible (a : Analyzer) (lines : String → Except Failure (List String))
    (reports : List Report) : Prop :=
  (∃ text, a.settings.suppressionMarker = .text text) ∧
    ∀ r ∈ reports, ∃ found, lines r.location.file = .ok found

section

variable {st mid after : AnalysisState} {g : Groundwork} {s : LoopSearch ProjectState}
  (hs : s.Mirrored ProjectState.Relogged)

include hs

end

end Analyzer

namespace SampleRun

open Analyzer

end SampleRun

end NPlusOne
