import NPlusOne.Proofs.DefinitionIndex
import NPlusOne.Proofs.PathNormal

namespace NPlusOne

/-- A function with a USR, of which its own unit shows no definition that lies in a file. -/
structure Cursor.Foreign (callee : Cursor) : Prop where
  unseen : callee.definition?.bind (·.node.file?) = none
  named : callee.node.info.usr ≠ ""

namespace Resolver

variable {r : Resolver} {p : ProjectState} {callee : Cursor} {index : DefinitionIndex}

theorem preserves_grows (r : Resolver) (cache : UnitCache) :
    r.Preserves fun p => cache.Grows p.cache where
  load path p hp := hp.trans (FrontEnd.loads_load r.frontEnd path p.cache).grows
  log _ _ _ hp := hp
  index _ _ _ hp := hp

theorem keeps_index_loadUnit (path : String) (index : Option DefinitionIndex) :
    Task.Keeps (fun p => p.index = index) (r.loadUnit path) :=
  .bind (.within fun _ hp => hp) fun _ => .pure _

theorem keeps_index_indexFiles (paths : List String) (made : DefinitionIndex)
    (index : Option DefinitionIndex) :
    Task.Keeps (fun p => p.index = index) (r.indexFiles paths made) :=
  stepwise_indexFiles (Task.Keeps.stepwise _) (fun _ => trivial)
    (fun path => (keeps_index_loadUnit path index).catchParse) (fun _ => .modify fun _ hp => hp)
    paths made

theorem run_definitionIndex_kept (h : p.index = some index) :
    r.definitionIndex.run p = (.ok index, p) := by
  rw [definitionIndex, Task.run_locked, makeIndex, Task.run_bind_ok (Task.run_get p), h]
  rfl

theorem run_definitionIndex_made (hnone : p.index = none)
    (h : ((r.indexFiles r.project.sources []).run p).1 = .ok index) :
    (r.definitionIndex.run p).1 = .ok index ∧ (r.definitionIndex.run p).2.index = some index ∧
      (r.definitionIndex.run p).2.cache.units =
        ((r.indexFiles r.project.sources []).run p).2.cache.units := by
  have hrun : (r.indexFiles r.project.sources []).run p =
      (.ok index, ((r.indexFiles r.project.sources []).run p).2) := Prod.ext h rfl
  rw [definitionIndex, Task.run_locked, makeIndex, Task.run_bind_ok (Task.run_get p), hnone]
  dsimp only
  rw [Task.run_bind_ok hrun]
  exact ⟨rfl, rfl, rfl⟩

theorem run_definitionIndex_failed {e : Failure} (hnone : p.index = none)
    (h : ((r.indexFiles r.project.sources []).run p).1 = .error e) :
    r.definitionIndex.run p = (.error e, ((r.indexFiles r.project.sources []).run p).2) := by
  have hrun : (r.indexFiles r.project.sources []).run p =
      (.error e, ((r.indexFiles r.project.sources []).run p).2) := Prod.ext h rfl
  rw [definitionIndex, Task.run_locked, makeIndex, Task.run_bind_ok (Task.run_get p), hnone]
  dsimp only
  rw [Task.run_bind_error hrun]

/-- An index that was not there before is made from the source files. -/
theorem indexFiles_of_definitionIndex (hnone : p.index = none)
    (h : (r.definitionIndex.run p).1 = .ok index) :
    ((r.indexFiles r.project.sources []).run p).1 = .ok index := by
  cases hmade : ((r.indexFiles r.project.sources []).run p).1 with
  | error e =>
    rw [run_definitionIndex_failed hnone hmade] at h
    cases h
  | ok other =>
    have hother := (run_definitionIndex_made hnone hmade).1
    exact hother.symm.trans h

/-- Asking for the index leaves the one that it answers with, and none where it fails. -/
theorem index_definitionIndex (r : Resolver) (p : ProjectState) :
    (r.definitionIndex.run p).2.index = (r.definitionIndex.run p).1.toOption := by
  cases hindex : p.index with
  | some index =>
    rw [run_definitionIndex_kept hindex]
    exact hindex
  | none =>
    cases hmade : ((r.indexFiles r.project.sources []).run p).1 with
    | error e =>
      rw [run_definitionIndex_failed hindex hmade]
      exact keeps_index_indexFiles _ [] none p hindex
    | ok index =>
      obtain ⟨hres, hset, _⟩ := run_definitionIndex_made hindex hmade
      rw [hres, hset]
      rfl

theorem run_locate_foreign (h : callee.Foreign) (p : ProjectState) :
    (r.locate callee).run p =
      ((r.definitionIndex.run p).1.map (·.lookup callee.node.info.usr),
        (r.definitionIndex.run p).2) := by
  unfold locate
  rw [h.unseen]
  simp only [h.named, ↓reduceIte]
  exact Task.run_bind_pure _ _ p

/-- Only functions that are not seen in their own unit need the index. -/
theorem index_locate_of_not_foreign (h : ¬ callee.Foreign) (p : ProjectState) :
    ((r.locate callee).run p).2.index = p.index := by
  have hkeeps : Task.Keeps (fun q => q.index = p.index) (r.locate callee) := by
    unfold locate
    split
    next =>
      split
      next => exact .pure _
      next => exact .bind (.modify fun _ hq => hq) fun _ => .pure _
    next hunseen =>
      split
      next => exact .pure _
      next hnamed => exact absurd ⟨hunseen, hnamed⟩ h
  exact hkeeps p rfl

/-- Behind the search for the file, a resolver loads a unit and writes to the log. -/
theorem resolve_keeps (inv : ProjectState → Prop)
    (hload : ∀ path, Task.Keeps inv (r.loadUnit path))
    (hlog : ∀ entry p, inv p → inv (HasLog.append entry p))
    (h : inv ((r.locate callee).run p).2) : inv ((r.resolve callee).run p).2 := by
  have hwrite (level : Log.Level) (channel : Log.Channel) (text : String) :
      Task.Keeps inv (Log.write level channel text) := .modify fun q hq => hlog _ q hq
  unfold resolve
  rw [Task.run_bind]
  rcases hlocate : (r.locate callee).run p with ⟨e | found, q⟩
  · rw [hlocate] at h
    exact h
  · rw [hlocate] at h
    cases found with
    | none => exact ((hwrite _ _ _).bind fun _ => .pure _) q h
    | some path =>
      refine ((hload path).catchParse.bind fun outcome => ?_) q h
      cases outcome with
      | error e => exact (hwrite _ _ _).bind fun _ => .pure _
      | ok unit =>
        refine .bind (.bind (.ofExcept _) fun _ => ?_) fun _ => .pure _
        exact (hwrite _ _ _).bind fun _ => .pure _

theorem index_resolve (r : Resolver) (callee : Cursor) (p : ProjectState) :
    ((r.resolve callee).run p).2.index = ((r.locate callee).run p).2.index :=
  resolve_keeps (fun q => q.index = ((r.locate callee).run p).2.index)
    (fun path => keeps_index_loadUnit path _) (fun _ _ hq => hq) rfl

end Resolver

/-- What is asked of a resolver, or happens around it. -/
inductive ResolverRequest where
  | locate (callee : Cursor)
  | resolve (callee : Cursor)
  | inProject (path : String)
  /-- From now on other files are there and parse in other ways. -/
  | change (frontEnd : FrontEnd)
  /-- The units that are kept have become others. -/
  | others (cache : UnitCache)

/-- The request needs the index. -/
def ResolverRequest.Consults : ResolverRequest → Prop
  | locate callee => callee.Foreign
  | resolve callee => callee.Foreign
  | _ => False

structure ResolverSession where
  resolver : Resolver
  state : ProjectState

namespace ResolverSession

variable {s : ResolverSession} {request : ResolverRequest} {requests : List ResolverRequest}
  {index : DefinitionIndex} {i j n : Nat}

def next (s : ResolverSession) : ResolverRequest → ResolverSession
  | .locate callee => { s with state := ((s.resolver.locate callee).run s.state).2 }
  | .resolve callee => { s with state := ((s.resolver.resolve callee).run s.state).2 }
  | .inProject _ => s
  | .change frontEnd => { s with resolver := { s.resolver with frontEnd } }
  | .others cache => { s with state := { s.state with cache } }

/-- The session before request `n`. -/
def upTo (s : ResolverSession) (requests : List ResolverRequest) (n : Nat) : ResolverSession :=
  (requests.take n).foldl next s

theorem upTo_succ (h : requests[n]? = some request) :
    s.upTo requests (n + 1) = (s.upTo requests n).next request := by
  simp [upTo, List.take_add_one, h, List.foldl_append]

theorem upTo_succ_of_none (h : requests[n]? = none) :
    s.upTo requests (n + 1) = s.upTo requests n := by
  simp [upTo, List.take_add_one, h]

/-- The index that a request would be answered from. -/
def index? (s : ResolverSession) : Except Failure DefinitionIndex :=
  (s.resolver.definitionIndex.run s.state).1

theorem index_next_of_consults (h : request.Consults) :
    (s.next request).state.index = s.index?.toOption := by
  cases request with
  | locate callee =>
    simp only [next, Resolver.run_locate_foreign h]
    exact Resolver.index_definitionIndex _ _
  | resolve callee =>
    simp only [next, Resolver.index_resolve, Resolver.run_locate_foreign h]
    exact Resolver.index_definitionIndex _ _
  | _ => cases h

theorem index_next_of_not_consults (h : ¬ request.Consults) :
    (s.next request).state.index = s.state.index := by
  cases request with
  | locate callee => exact Resolver.index_locate_of_not_foreign h _
  | resolve callee =>
    exact (Resolver.index_resolve _ _ _).trans (Resolver.index_locate_of_not_foreign h _)
  | _ => rfl

theorem index?_of_index (h : s.state.index = some index) : s.index? = .ok index := by
  rw [index?, Resolver.run_definitionIndex_kept h]

theorem index_next_of_index (h : s.state.index = some index) (request : ResolverRequest) :
    (s.next request).state.index = some index := by
  by_cases hc : request.Consults
  · rw [index_next_of_consults hc, index?_of_index h]
    rfl
  · rw [index_next_of_not_consults hc, h]

/-- The index is built for request `n`: it needs one, finds none and gets one. -/
def BuildsIndex (s : ResolverSession) (requests : List ResolverRequest) (n : Nat) : Prop :=
  ∃ request index, requests[n]? = some request ∧ request.Consults ∧
    (s.upTo requests n).state.index = none ∧ (s.upTo requests n).index? = .ok index

theorem index_upTo_of_le {m : Nat} (h : (s.upTo requests n).state.index = some index)
    (hle : n ≤ m) : (s.upTo requests m).state.index = some index := by
  induction hle with
  | refl => exact h
  | @step m _ ih =>
    cases hr : requests[m]? with
    | none => rw [upTo_succ_of_none hr, ih]
    | some request => rw [upTo_succ hr, index_next_of_index ih]

theorem BuildsIndex.index_after (h : s.BuildsIndex requests i)
    (hi : (s.upTo requests i).index? = .ok index) (hlt : i < n) :
    (s.upTo requests n).state.index = some index := by
  obtain ⟨request, _, hr, hc, _, _⟩ := h
  have hnext : (s.upTo requests (i + 1)).state.index = some index := by
    rw [upTo_succ hr, index_next_of_consults hc, hi]
    rfl
  exact index_upTo_of_le hnext hlt

theorem BuildsIndex.not_lt (h : s.BuildsIndex requests i) (h' : s.BuildsIndex requests j) :
    ¬ i < j := by
  intro hlt
  obtain ⟨_, index, _, _, _, hi⟩ := id h
  obtain ⟨_, _, _, _, hnone, _⟩ := h'
  have hsome := h.index_after hi hlt
  cases hnone.symm.trans hsome

theorem BuildsIndex.unique (h : s.BuildsIndex requests i) (h' : s.BuildsIndex requests j) :
    i = j := by
  have hij := h.not_lt h'
  have hji := h'.not_lt h
  omega

/-- An index that is there was built for an earlier request. -/
theorem buildsIndex_of_index (hs : s.state.index = none)
    (h : (s.upTo requests n).state.index = some index) :
    ∃ i < n, s.BuildsIndex requests i ∧ (s.upTo requests i).index? = .ok index := by
  induction n with
  | zero => cases hs.symm.trans h
  | succ n ih =>
    cases hnow : (s.upTo requests n).state.index with
    | some other =>
      have hsame := index_upTo_of_le hnow (Nat.le_succ n)
      cases hsame.symm.trans h
      obtain ⟨i, hi, hbuilds, hindex⟩ := ih hnow
      exact ⟨i, by omega, hbuilds, hindex⟩
    | none =>
      cases hr : requests[n]? with
      | none =>
        rw [upTo_succ_of_none hr, hnow] at h
        cases h
      | some request =>
        rw [upTo_succ hr] at h
        by_cases hc : request.Consults
        · rw [index_next_of_consults hc] at h
          cases hindex : (s.upTo requests n).index? with
          | error e =>
            rw [hindex] at h
            cases h
          | ok made =>
            rw [hindex] at h
            cases h
            exact ⟨n, Nat.lt_succ_self n, ⟨request, index, hr, hc, hnow, hindex⟩, hindex⟩
        · rw [index_next_of_not_consults hc, hnow] at h
          cases h

/-- A request that needs the index and gets one is answered from the one index that is built. -/
theorem exists_buildsIndex (hs : s.state.index = none) (hr : requests[n]? = some request)
    (hc : request.Consults) (h : (s.upTo requests n).index? = .ok index) :
    ∃ i ≤ n, s.BuildsIndex requests i ∧ (s.upTo requests i).index? = .ok index := by
  cases hnow : (s.upTo requests n).state.index with
  | none => exact ⟨n, Nat.le_refl n, ⟨request, index, hr, hc, hnow, h⟩, h⟩
  | some other =>
    rw [index?_of_index hnow] at h
    cases h
    obtain ⟨i, hi, hbuilds, hindex⟩ := buildsIndex_of_index hs hnow
    exact ⟨i, Nat.le_of_lt hi, hbuilds, hindex⟩

def locates (s : ResolverSession) (callee : Cursor) : Except Failure (Option String) :=
  ((s.resolver.locate callee).run s.state).1

/-- The units that the source files have when they are asked for now. -/
def units (s : ResolverSession) : List (Option TranslationUnit) :=
  s.resolver.unitsOf s.state s.resolver.project.sources

/-- The answer is the file of the first definition of the function in the units that there are
now. -/
def AnswersFirst (s : ResolverSession) (usr : String) (answer : Option String) : Prop :=
  s.resolver.AnswersFirst s.units usr answer

/-- Whatever is asked of a resolver and whatever happens to files and units: the index is built once
at most, and a function that is not seen in its own unit is always located by the first definition
that the units of the source files exposed when it was built. -/
theorem locate_answers_first (s : ResolverSession) (hs : s.state.index = none)
    (requests : List ResolverRequest)
    (hmade : ∀ n request, requests[n]? = some request → request.Consults →
      ∃ index, (s.upTo requests n).index? = .ok index) :
    (∀ i j, s.BuildsIndex requests i → s.BuildsIndex requests j → i = j) ∧
    ∀ n callee, requests[n]? = some (.locate callee) → callee.Foreign →
      ∃ i answer, s.BuildsIndex requests i ∧
        (s.upTo requests i).AnswersFirst callee.node.info.usr answer ∧
        (s.upTo requests n).locates callee = .ok answer ∧
        (n ≠ i → s.upTo requests (n + 1) = s.upTo requests n) := by
  refine ⟨fun i j hi hj => hi.unique hj, fun n callee hn hforeign => ?_⟩
  obtain ⟨index, hindex⟩ := hmade n _ hn hforeign
  obtain ⟨i, hle, hbuilds, hi⟩ := exists_buildsIndex hs hn hforeign hindex
  refine ⟨i, index.lookup callee.node.info.usr, hbuilds, ?_, ?_, ?_⟩
  · obtain ⟨_, _, _, _, hnone, _⟩ := hbuilds
    exact Resolver.answersFirst_lookup (Resolver.indexFiles_of_definitionIndex hnone hi)
      hforeign.named
  · rw [index?] at hindex
    rw [locates, Resolver.run_locate_foreign hforeign, hindex]
    rfl
  · intro hne
    have hkept := hbuilds.index_after hi (by omega : i < n)
    rw [upTo_succ hn, next, Resolver.run_locate_foreign hforeign,
      Resolver.run_definitionIndex_kept hkept]

end ResolverSession

namespace SampleIndex

def helper : Node :=
  .mk 2 { kind := .functionDecl, spelling := "helper", place := some ⟨"/a.cpp", 2, 1, 14⟩
          usr := "c:@N@F@helper#", isDefinition := true } []

def scope : Node :=
  .mk 1 { kind := .namespaceDecl, spelling := "N", place := some ⟨"/a.cpp", 1, 1, 0⟩ } [helper]

def unit : TranslationUnit where
  nodes := #[.mk 0 { kind := .other "TRANSLATION_UNIT" } [scope], scope, helper]

/-- A second definition of the same function. -/
def copy : TranslationUnit where
  nodes := #[.mk 0 { kind := .other "TRANSLATION_UNIT" } [.mk 1 { helper.info with
    place := some ⟨"/b.cpp", 1, 1, 0⟩ } []]]

/-- The function as a file without a definition knows it. -/
def declared : Cursor where
  unit := { nodes := #[] }
  node := .mk 1 { kind := .functionDecl, spelling := "helper", usr := "c:@N@F@helper#" } []

def session : ResolverSession where
  resolver := ⟨{ program := {}, files := .empty }, .make .empty ["/a.cpp", "/b.cpp"] none⟩
  state := { cache := { units := [("/a.cpp", ⟨1, unit⟩), ("/b.cpp", ⟨2, copy⟩)] } }

/-- In between all units are lost, and no file can be parsed any more. -/
def requests : List ResolverRequest := [.locate declared, .others {}, .locate declared]

theorem foreign : declared.Foreign :=
  ⟨rfl, by decide⟩

theorem index?_upTo {n : Nat} {request : ResolverRequest} (hn : requests[n]? = some request)
    (hc : request.Consults) :
    (session.upTo requests n).index? = .ok [("c:@N@F@helper#", "/a.cpp")] := by
  have hlt : n < 3 := (List.getElem?_eq_some_iff.mp hn).1
  have hcases : n = 0 ∨ n = 1 ∨ n = 2 := by omega
  rcases hcases with rfl | rfl | rfl
  · rfl
  · cases hn
    cases hc
  · rfl

theorem helper_located_throughout :
    (session.upTo requests 2).locates declared = .ok (some "/a.cpp") ∧
      ∃ i answer, session.BuildsIndex requests i ∧
        (session.upTo requests i).AnswersFirst "c:@N@F@helper#" answer ∧
        (session.upTo requests 2).locates declared = .ok answer ∧
        (2 ≠ i → session.upTo requests 3 = session.upTo requests 2) := by
  have hmade := ResolverSession.locate_answers_first session rfl requests
    fun _ _ hn hc => ⟨_, index?_upTo hn hc⟩
  exact ⟨rfl, hmade.2 2 declared rfl foreign⟩

end SampleIndex

end NPlusOne
