import Mathlib.Data.List.Nodup
import NPlusOne.Proofs.ResolverSteady
import NPlusOne.Proofs.SearchSteps

namespace NPlusOne

namespace Node

mutual

/-- The nodes of a tree in source order, as far as the front end lists children. -/
def listed : Node → List Node
  | .mk id info children =>
    .mk id info children :: if info.failure.isNone then listedAll children else []

def listedAll : List Node → List Node
  | [] => []
  | n :: rest => listed n ++ listedAll rest

end

theorem mem_listedAll {m : Node} {ns : List Node} :
    m ∈ listedAll ns ↔ ∃ n ∈ ns, m ∈ n.listed := by
  induction ns with
  | nil => simp [listedAll]
  | cons n rest ih => simp [listedAll, ih]

theorem mem_listed {n m : Node} :
    m ∈ n.listed ↔
      m = n ∨ ∃ children, n.children = .ok children ∧ ∃ c ∈ children, m ∈ c.listed := by
  obtain ⟨id, info, subtrees⟩ := n
  cases hf : info.failure with
  | none => simp [listed, children, Node.info, Node.subtrees, hf, mem_listedAll]
  | some reason => simp [listed, children, Node.info, hf]

theorem size_le_sizeList {c : Node} {ns : List Node} (h : c ∈ ns) : c.size ≤ sizeList ns := by
  induction ns with
  | nil => cases h
  | cons n rest ih =>
    simp only [sizeList]
    rcases List.mem_cons.mp h with rfl | h
    · omega
    · have := ih h
      omega

theorem contains_iff_mem_listed {n m : Node} : n.Contains m ↔ m ∈ n.listed := by
  constructor
  · intro h
    induction h with
    | self n => exact mem_listed.mpr (.inl rfl)
    | under hc hmem _ ih => exact mem_listed.mpr (.inr ⟨_, hc, _, hmem, ih⟩)
  · intro h
    generalize hsize : n.size = size
    induction size using Nat.strongRecOn generalizing n with
    | ind size ih =>
      rcases mem_listed.mp h with rfl | ⟨children, hc, c, hmem, hm⟩
      · exact .self _
      · have hle := size_le_sizeList hmem
        rw [subtrees_of_children hc] at hle
        have hlt : c.size < size := by
          have hn := size_eq n
          omega
        exact .under hc hmem (ih c.size hlt hm rfl)

end Node

namespace Cursor

/-- The definition that a call in the body leads to, where it lies in the file of the body. -/
def calleeHere? (c : Cursor) (call : Node) : Option Cursor :=
  match Cursor.simpleCallee ⟨c.unit, call⟩ with
  | .ok (some callee) => c.node.file?.bind (LoopSearch.definitionHere · callee)
  | _ => none

def calls (c : Cursor) : List Node :=
  c.node.listed.filter (·.kind = .call)

/-- The definitions in the file of a body that its calls lead to. -/
def calleesHere (c : Cursor) : List Cursor :=
  c.calls.filterMap c.calleeHere?

/-- Whatever the body calls by name is defined in its own file. -/
def staysHere (c : Cursor) : Bool :=
  c.calls.all fun call => match Cursor.simpleCallee ⟨c.unit, call⟩ with
    | .ok (some _) => (c.calleeHere? call).isSome
    | _ => true

end Cursor

namespace LoopSearch

variable {ρ : Type} {s : LoopSearch ρ} {holds : ρ → Prop}

theorem uses_iff_any_listed {c : Cursor} :
    s.Uses c ↔ c.node.listed.any (s.isQueryUse c.unit) = true := by
  simp [Uses, Node.contains_iff_mem_listed]

theorem calls_iff_mem_calls {c d : Cursor} :
    s.Calls holds c d ↔ ∃ n ∈ c.calls, s.Expands holds c.node.file? ⟨c.unit, n⟩ d := by
  simp [Calls, Cursor.calls, Node.contains_iff_mem_listed, and_assoc]

/-- In a body that calls nothing from other files, the expansion graph can be computed. -/
theorem calls_iff_mem_calleesHere {c d : Cursor} (h : c.staysHere = true) :
    s.Calls holds c d ↔ d ∈ c.calleesHere := by
  rw [calls_iff_mem_calls]
  simp only [Cursor.calleesHere, List.mem_filterMap]
  have hhere := List.all_eq_true.mp h
  constructor
  · rintro ⟨n, hn, he⟩
    refine ⟨n, hn, ?_⟩
    specialize hhere n hn
    cases he with
    | here hs hd => simp [Cursor.calleeHere?, hs, hd]
    | elsewhere hs hd => simp [Cursor.calleeHere?, hs, hd] at hhere
  · rintro ⟨n, hn, hd⟩
    unfold Cursor.calleeHere? at hd
    split at hd
    next callee hs => exact ⟨n, hn, .here hs hd⟩
    next => cases hd

theorem identified_of_nodup {ds : List Cursor}
    (h : (ds.map fun d => (DeclarationId.of d.node).toOption).Nodup) : Identified (· ∈ ds) := by
  intro c d id hc hd hcid hdid
  exact List.inj_on_of_nodup_map h hc hd (by rw [hcid, hdid])

/-- Only functions of a set that the first calls lie in and that calls do not leave are met. -/
theorem Met.closed {steps : List Step} {P : Cursor → Prop}
    (hstart : ∀ step ∈ steps, ∀ d, step.errand.Calls s holds d → P d)
    (hclosed : ∀ c d, P c → s.Calls holds c d → P d) {d : Cursor} (h : s.Met holds steps d) :
    P d := by
  obtain ⟨step, hstep, c, hc, hl⟩ := h
  induction hl with
  | refl => exact hstart step hstep c hc
  | tail _ hd ih => exact hclosed _ _ ih hd

end LoopSearch

namespace Sample

def place (offset : Int) : Option Place :=
  some ⟨"a.cpp", 1, offset, offset⟩

def record : Node :=
  .mk 1 { kind := .structDecl, spelling := "H", place := place 7, usr := "c:@S@H" } []

def use (id : Nat) (offset : Int) : Node :=
  .mk id { kind := .declRef, place := place offset, type := some 0 } []

def call (id : Nat) (offset : Int) (callee : Nat) : Node :=
  .mk id { kind := .call, place := place offset, referenced := some callee }
    [.mk (id + 1) { kind := .declRef, place := place offset, referenced := some callee } []]

def function (id : Nat) (offset : Int) (body : List Node) : Node :=
  let info : NodeInfo := {
    kind := .functionDecl
    place := place offset
    definition := some id
    isDefinition := true }
  .mk id info body

def loop (id : Nat) (place : Option Place) (body : List Node) : Node :=
  .mk id { kind := .forLoop, place } body

def ping : Node := function 2 20 [call 3 24 6, use 5 28]

def pong : Node := function 6 30 [call 7 34 2]

def leaf : Node := function 9 40 [use 10 44]

def torn : Node :=
  function 11 50 [.mk 12 { kind := .other "COMPOUND_STMT", failure := some "torn" } []]

def overPing : Node := loop 13 (place 60) [call 14 64 2]

def overLeaf : Node := loop 16 (place 70) [call 17 74 9]

def overTorn : Node := loop 19 (place 80) [call 20 84 11]

def adrift : Node := loop 22 none [use 23 94]

/-- The functions `ping` and `pong` call each other, `leaf` calls nothing and the front end fails in
the body of `torn`; loops call them, and the last loop lies in no file. -/
def tree : Node :=
  .mk 0 { kind := .other "TRANSLATION_UNIT" }
    [record, ping, pong, leaf, torn, overPing, overLeaf, overTorn, adrift]

def unit : TranslationUnit where
  nodes := tree.listed.toArray
  types := #[{ kind := .other "RECORD", spelling := "H", declaration := some 1 }]

def resolver : Resolver where
  frontEnd := { program := { outcomes := [("/a.cpp", [.unit unit])] }, files := .empty }
  project := { sources := ["/a.cpp"], roots := ["/"] }

def search : LoopSearch ProjectState where
  registry := { types := [⟨"c:@S@H", 0, "H"⟩] }
  resolve := resolver.resolve
  bound := 5

abbrev cursor (n : Node) : Cursor := ⟨unit, n⟩

def functions : List Cursor := [ping, pong, leaf, torn].map cursor

def loops : List Cursor := [overPing, overLeaf, overTorn, adrift].map cursor

theorem single : resolver.frontEnd.program.Single :=
  Program.single_of_length_le_one (by simp [resolver])

theorem steady : search.Steady resolver.Consistent :=
  Resolver.steady rfl single

theorem calls_mem_functions {c d : Cursor} (hc : c ∈ functions ++ loops)
    (h : search.Calls resolver.Consistent c d) : d ∈ functions := by
  have hstays : (functions ++ loops).all Cursor.staysHere = true := rfl
  rw [LoopSearch.calls_iff_mem_calleesHere (List.all_eq_true.mp hstays c hc)] at h
  have hcallees : (functions ++ loops).flatMap Cursor.calleesHere =
      [pong, ping, ping, leaf, torn].map cursor := rfl
  have hd := List.mem_flatMap.mpr ⟨c, hc, h⟩
  rw [hcallees] at hd
  simp only [functions, List.map_cons, List.map_nil, List.mem_cons, List.not_mem_nil] at hd ⊢
  grind

theorem identified {steps : List Step} (h : ∀ step ∈ steps, ∃ c ∈ loops, step = .loop c) :
    LoopSearch.Identified (search.Met resolver.Consistent steps) := by
  have hids : (functions.map fun c => (DeclarationId.of c.node).toOption).Nodup := by decide
  refine (LoopSearch.identified_of_nodup hids).mono fun d hd => hd.closed ?_ ?_
  · intro step hstep d hd
    obtain ⟨c, hc, rfl⟩ := h step hstep
    exact calls_mem_functions (List.mem_append_right _ hc) hd
  · intro c d hc hd
    exact calls_mem_functions (List.mem_append_left _ hc) hd

end Sample

end NPlusOne
