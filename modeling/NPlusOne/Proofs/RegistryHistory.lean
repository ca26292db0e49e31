import Mathlib.Data.Finset.Card
import NPlusOne.Proofs.TypeRegistration

namespace NPlusOne

namespace QueryType

/-- What types are compared by. -/
def key (t : QueryType) : String × Int :=
  (t.usr, t.depth)

theorem same_iff {a b : QueryType} : a.same b = true ↔ a.key = b.key := by
  simp [same, key]

end QueryType

namespace Registry

variable {r : Registry} {types : List QueryType} {t : QueryType}

theorem contains_iff_mem_keys : r.contains t = true ↔ t.key ∈ r.types.map QueryType.key := by
  rw [contains, List.any_eq_true, List.mem_map]
  exact exists_congr fun known => and_congr_right fun _ => QueryType.same_iff.trans eq_comm

theorem mem_add {found : QueryType} :
    t ∈ (r.add found).types ↔ t ∈ r.types ∨ r.contains found = false ∧ t = found := by
  unfold add
  split
  next h => simp [h]
  next h => simp [h]

theorem nodup_keys_add (h : (r.types.map QueryType.key).Nodup) (found : QueryType) :
    ((r.add found).types.map QueryType.key).Nodup := by
  unfold add
  split
  next => exact h
  next hnew =>
    rw [contains_iff_mem_keys] at hnew
    rw [List.map_append, List.nodup_append]
    refine ⟨h, by simp, ?_⟩
    rintro key hold _ hmem rfl
    rw [List.map_singleton, List.mem_singleton] at hmem
    exact hnew (hmem ▸ hold)

/-- Adds types in turn. -/
def addAll (r : Registry) (types : List QueryType) : Registry :=
  types.foldl add r

theorem contains_addAll :
    (r.addAll types).contains t = true ↔
      r.contains t = true ∨ ∃ found ∈ types, found.key = t.key := by
  induction types generalizing r with
  | nil => simp [addAll]
  | cons found rest ih =>
    have hcons : r.addAll (found :: rest) = (r.add found).addAll rest := rfl
    rw [hcons, ih, contains_add, QueryType.same_iff, List.exists_mem_cons_iff, or_assoc,
      eq_comm (a := t.key)]

theorem nodup_keys_addAll (h : (r.types.map QueryType.key).Nodup) (types : List QueryType) :
    ((r.addAll types).types.map QueryType.key).Nodup := by
  induction types generalizing r with
  | nil => exact h
  | cons found rest ih => exact ih (nodup_keys_add h found)

/-- Of the types with one key, the first is listed. -/
theorem mem_addAll :
    t ∈ (r.addAll types).types ↔
      t ∈ r.types ∨ r.contains t = false ∧ types.find? (·.key = t.key) = some t := by
  induction types generalizing r with
  | nil => simp [addAll]
  | cons found rest ih =>
    have hcons : r.addAll (found :: rest) = (r.add found).addAll rest := rfl
    have hadd : (r.add found).contains t = false ↔
        r.contains t = false ∧ found.key ≠ t.key := by
      rw [← Bool.not_eq_true, contains_add, QueryType.same_iff, not_or, Bool.not_eq_true,
        ne_comm (a := found.key)]
    rw [hcons, ih, mem_add, hadd, List.find?_cons]
    by_cases hkey : found.key = t.key
    · have hsame : r.contains found = r.contains t := by
        rw [Bool.eq_iff_iff, contains_iff_mem_keys, contains_iff_mem_keys, hkey]
      simp [hkey, hsame, eq_comm (a := t)]
    · have hne : t ≠ found := fun heq => hkey (congrArg QueryType.key heq.symm)
      simp [hkey, hne]

theorem size_addAll (types : List QueryType) :
    (addAll {} types).size = (types.map QueryType.key).toFinset.card := by
  have hnodup : ((addAll {} types).types.map QueryType.key).Nodup :=
    nodup_keys_addAll (by simp) types
  have hkeys : ((addAll {} types).types.map QueryType.key).toFinset =
      (types.map QueryType.key).toFinset := by
    ext key
    obtain ⟨usr, depth⟩ := key
    have hcontains := contains_iff_mem_keys (r := addAll {} types) (t := { usr, depth })
    rw [contains_addAll] at hcontains
    rw [List.mem_toFinset, List.mem_toFinset]
    refine hcontains.symm.trans ?_
    simp [contains, QueryType.key]
  rw [← hkeys, List.toFinset_card_of_nodup hnodup, List.length_map]
  rfl

section Register

variable {σ : Type} [HasLog σ] {lookup : Value → Value → Task σ (Option QueryType)}
  {answer : Value → Value → Option QueryType}

/-- The lookup answers the questions, whatever state it is in. -/
def Answers (lookup : Value → Value → Task σ (Option QueryType))
    (answer : Value → Value → Option QueryType) (questions : List (Value × Value)) : Prop :=
  ∀ p ∈ questions, ∀ st, ((lookup p.1 p.2).run st).1 = .ok (answer p.1 p.2)

/-- The types that the questions are answered by. -/
def answered (answer : Value → Value → Option QueryType) (questions : List (Value × Value)) :
    List QueryType :=
  questions.filterMap fun p => answer p.1 p.2

theorem answered_cons (p : Value × Value) (questions : List (Value × Value)) (r : Registry) :
    r.addAll (answered answer (p :: questions)) =
      ((answer p.1 p.2).elim r r.add).addAll (answered answer questions) := by
  cases h : answer p.1 p.2 <;> simp [answered, addAll, h]

theorem registerAll_of_answers {pairs : List (Value × Value)} (h : Answers lookup answer pairs)
    (hopen : r.frozen = false) (st : σ) :
    ∃ st', (r.registerAll lookup pairs).run st = (.ok (r.addAll (answered answer pairs)), st') := by
  induction pairs generalizing r st with
  | nil => exact ⟨st, rfl⟩
  | cons pair rest ih =>
    obtain ⟨hpair, hrest⟩ := List.forall_mem_cons.mp h
    obtain ⟨mid, hregister⟩ := register_of_answer hopen (hpair st)
    have hopen' : ((answer pair.1 pair.2).elim r r.add).frozen = false := by
      cases answer pair.1 pair.2 with
      | none => exact hopen
      | some found => exact (frozen_add r found).trans hopen
    obtain ⟨st', hrun⟩ := ih hrest hopen' mid
    rw [answered_cons]
    exact ⟨st', (Task.run_bind_ok hregister).trans hrun⟩

theorem build_of_answers {pairs : List (Value × Value)} (h : Answers lookup answer pairs)
    (st : σ) :
    ((build lookup pairs).run st).1 = .ok (addAll {} (answered answer pairs)).freeze := by
  have hopen : ({} : Registry).frozen = false := rfl
  obtain ⟨mid, hrun⟩ := registerAll_of_answers h hopen st
  rw [build, Task.run_bind_ok hrun]
  rfl

end Register

end Registry

/-- What is done with a registry that is being made. -/
inductive RegistryRequest where
  | register (library type : Value)
  | freeze

/-- The questions that are asked before the first freeze. -/
def RegistryRequest.questions : List RegistryRequest → List (Value × Value)
  | [] => []
  | freeze :: _ => []
  | register library type :: rest => (library, type) :: questions rest

/-- A registry that is being made, the questions that the lookup was asked for it, and the state
that the lookup works on. -/
structure RegistrySession (σ : Type) where
  registry : Registry := {}
  asked : List (Value × Value) := []
  state : σ

instance {σ : Type} [HasLog σ] : HasLog (RegistrySession σ) where
  append entry s := { s with state := HasLog.append entry s.state }

namespace RegistrySession

open Registry

variable {σ : Type} [HasLog σ]

/-- The lookup, with a note of the question. -/
def ask (lookup : Value → Value → Task σ (Option QueryType)) (library type : Value) :
    Task (RegistrySession σ) (Option QueryType) := do
  modify fun s => { s with asked := s.asked ++ [(library, type)] }
  Task.within RegistrySession.state (fun st s => { s with state := st }) (lookup library type)

def serve (lookup : Value → Value → Task σ (Option QueryType)) :
    RegistryRequest → Task (RegistrySession σ) (Option QueryType)
  | .register library type => do
    let (found, registry) ← (← get).registry.register (ask lookup) library type
    modify fun s => { s with registry := registry }
    return found
  | .freeze => do
    modify fun s => { s with registry := s.registry.freeze }
    return none

/-- The session after requests, whether they failed or not. -/
def after (lookup : Value → Value → Task σ (Option QueryType)) (s : RegistrySession σ)
    (past : List RegistryRequest) : RegistrySession σ :=
  past.foldl (fun s request => ((serve lookup request).run s).2) s

variable {lookup : Value → Value → Task σ (Option QueryType)}
  {answer : Value → Value → Option QueryType} {s : RegistrySession σ} {library type : Value}

/-- A frozen registry refuses a type without asking for it. -/
theorem serve_of_frozen (h : s.registry.frozen = true) :
    (serve lookup (.register library type)).run s = (.error .frozenRegistry, s) := by
  rw [serve, Task.run_bind_ok (Task.run_get s), Registry.register, if_pos h]
  rfl

theorem serve_of_open (h : s.registry.frozen = false) {o : Option QueryType}
    (ho : ((lookup library type).run s.state).1 = .ok o) :
    ∃ st, (serve lookup (.register library type)).run s =
      (.ok o, ⟨o.elim s.registry s.registry.add, s.asked ++ [(library, type)], st⟩) := by
  have hask : (ask lookup library type).run s = (.ok o,
      ⟨s.registry, s.asked ++ [(library, type)], ((lookup library type).run s.state).2⟩) :=
    (Task.run_within _ _ _ _ _).trans (Prod.ext ho rfl)
  rw [serve, Task.run_bind_ok (Task.run_get s)]
  obtain hregister | ⟨entry, hregister⟩ := run_register_of_open h hask
  · exact ⟨_, Task.run_bind_ok hregister⟩
  · exact ⟨_, Task.run_bind_ok hregister⟩

theorem serve_freeze (s : RegistrySession σ) :
    (serve lookup .freeze).run s = (.ok none, { s with registry := s.registry.freeze }) := rfl

/-- Nothing that is asked of a frozen registry has an effect. -/
theorem after_of_frozen (h : s.registry.frozen = true) (past : List RegistryRequest) :
    s.after lookup past = s := by
  induction past with
  | nil => rfl
  | cons request past ih =>
    have hstep : ((serve lookup request).run s).2 = s := by
      cases request with
      | register library type => rw [serve_of_frozen h]
      | freeze =>
        have hfreeze : s.registry.freeze = s.registry := by rw [freeze, ← h]
        rw [serve_freeze, hfreeze]
    rw [after, List.foldl_cons, hstep]
    exact ih

/-- The registry takes the answers to the questions before the first freeze, and the lookup is asked
no others. -/
theorem after_of_open {past : List RegistryRequest} (h : s.registry.frozen = false)
    (hanswer : Answers lookup answer (RegistryRequest.questions past)) :
    (s.after lookup past).registry.types =
        (s.registry.addAll (answered answer (RegistryRequest.questions past))).types ∧
      ((s.after lookup past).registry.frozen = true ↔ .freeze ∈ past) ∧
      (s.after lookup past).asked = s.asked ++ RegistryRequest.questions past := by
  induction past generalizing s with
  | nil => exact ⟨rfl, by simp [after, h], by simp [after, RegistryRequest.questions]⟩
  | cons request past ih =>
    cases request with
    | freeze =>
      have hstep : s.after lookup (.freeze :: past) = { s with registry := s.registry.freeze } :=
        after_of_frozen (s := { s with registry := s.registry.freeze }) rfl past
      rw [hstep]
      exact ⟨rfl, by simp [freeze], by simp [RegistryRequest.questions]⟩
    | register library type =>
      obtain ⟨hfirst, hrest⟩ := List.forall_mem_cons.mp hanswer
      obtain ⟨st, hserve⟩ := serve_of_open h (hfirst s.state)
      have hopen : ((answer library type).elim s.registry s.registry.add).frozen = false := by
        cases answer library type with
        | none => exact h
        | some found => exact (frozen_add s.registry found).trans h
      have hstep : s.after lookup (.register library type :: past) =
          after lookup ⟨(answer library type).elim s.registry s.registry.add,
            s.asked ++ [(library, type)], st⟩ past := by
        rw [after, List.foldl_cons, hserve]
        rfl
      obtain ⟨htypes, hfrozen, hasked⟩ := ih
        (s := ⟨(answer library type).elim s.registry s.registry.add,
          s.asked ++ [(library, type)], st⟩) hopen hrest
      rw [hstep, htypes, hfrozen, hasked, RegistryRequest.questions, answered_cons]
      exact ⟨rfl, by simp, by simp⟩

/-- What a registry that is being made shows of its past. -/
structure Shows (lookup : Value → Value → Task σ (Option QueryType))
    (answer : Value → Value → Option QueryType) (past : List RegistryRequest)
    (s : RegistrySession σ) : Prop where
  /-- After a freeze a type is refused, the lookup is not asked, and nothing changes. -/
  refused : .freeze ∈ past → ∀ library type,
    (serve lookup (.register library type)).run s = (.error .frozenRegistry, s)
  /-- Before it the lookup is asked once, and its answer is given. -/
  taken : .freeze ∉ past → ∀ library type, Answers lookup answer [(library, type)] →
    ∃ s', (serve lookup (.register library type)).run s = (.ok (answer library type), s') ∧
      s'.asked = s.asked ++ [(library, type)]
  asked : s.asked = RegistryRequest.questions past
  contains : ∀ c, s.registry.contains c = true ↔
    ∃ found ∈ answered answer (RegistryRequest.questions past),
      found.usr = c.usr ∧ found.depth = c.depth
  size : s.registry.size =
    ((answered answer (RegistryRequest.questions past)).map QueryType.key).toFinset.card
  /-- Each type is listed once, under the name that it was registered with first. -/
  nodup : (s.registry.types.map QueryType.key).Nodup
  named : ∀ t, t ∈ s.registry.types ↔
    (answered answer (RegistryRequest.questions past)).find? (·.key = t.key) = some t

/-- What a registry shows is made of all the requests so far. -/
theorem after_shows_past {past : List RegistryRequest}
    (hanswer : Answers lookup answer (RegistryRequest.questions past)) (st : σ) :
    Shows lookup answer past (after lookup { state := st } past) := by
  have hopen : ({} : Registry).frozen = false := rfl
  obtain ⟨htypes, hfrozen, hasked⟩ := after_of_open (s := { state := st }) hopen hanswer
  generalize after lookup { state := st } past = s at htypes hfrozen hasked
  have hcontains : ∀ c, s.registry.contains c =
      (addAll {} (answered answer (RegistryRequest.questions past))).contains c :=
    fun c => congrArg (List.any · c.same) htypes
  constructor
  case refused => exact fun h library type => serve_of_frozen (hfrozen.mpr h)
  case taken =>
    intro h library type hnext
    have hnot : s.registry.frozen = false := by simpa using fun hf => h (hfrozen.mp hf)
    obtain ⟨st', hserve⟩ := serve_of_open hnot (hnext _ List.mem_cons_self s.state)
    exact ⟨_, hserve, rfl⟩
  case asked => simpa using hasked
  case contains =>
    intro c
    rw [hcontains, contains_addAll]
    simp [Registry.contains, QueryType.key]
  case size =>
    rw [← size_addAll, Registry.size, htypes]
    rfl
  case nodup =>
    rw [htypes]
    exact nodup_keys_addAll (by simp) _
  case named =>
    intro t
    rw [htypes, mem_addAll]
    simp [Registry.contains]

/-- A registry that is being made is told by its history, and a registry that is built from pairs
has the same members in whatever order and however often they are given. -/
theorem registered_by_history {past : List RegistryRequest}
    (hanswer : Answers lookup answer (RegistryRequest.questions past)) (st : σ) :
    Shows lookup answer past (after lookup { state := st } past) ∧
    ∀ pairs extra pairs' extra', Answers lookup answer (pairs ++ extra) →
      (∀ p, p ∈ pairs ++ extra ↔ p ∈ pairs' ++ extra') → ∀ st st' : σ,
      ∃ r r', ((build lookup (pairs ++ extra)).run st).1 = .ok r ∧
        ((build lookup (pairs' ++ extra')).run st').1 = .ok r' ∧
        ∀ c, r.contains c = r'.contains c := by
  refine ⟨after_shows_past hanswer st, ?_⟩
  intro pairs extra pairs' extra' hall hsame st st'
  have hall' : Answers lookup answer (pairs' ++ extra') := fun p hp => hall p ((hsame p).mpr hp)
  refine ⟨_, _, build_of_answers hall st, build_of_answers hall' st', fun c => ?_⟩
  have hfreeze : ∀ r : Registry, r.freeze.contains c = r.contains c := fun _ => rfl
  rw [hfreeze, hfreeze, Bool.eq_iff_iff, contains_addAll, contains_addAll]
  simp only [answered, List.mem_filterMap, hsame]

end RegistrySession

namespace HandleTypes

open Registry RegistrySession

/-- The handle, which is a pointer to the struct, and that pointer under its own name; then another
type, which comes too late. -/
def requests : List RegistryRequest :=
  [.register (.text "pool.h") (.text "Handle"), .register (.text "pool.h") (.text "*conn"), .freeze,
    .register (.text "pool.h") (.text "p::Handle")]

def answers (library type : Value) : Option QueryType :=
  (TypeLookup.answer [unit] library type).toOption.join

theorem requests_answered : Answers (TypeLookup.lookup (σ := Log) [unit]) answers
    (RegistryRequest.questions requests) := by
  have hhandle : TypeLookup.answer [unit] (.text "pool.h") (.text "Handle") =
      .ok (some ⟨"c:@S@conn", 1, "Handle"⟩) := by
    decide +kernel
  have hpointer : TypeLookup.answer [unit] (.text "pool.h") (.text "*conn") =
      .ok (some ⟨"c:@S@conn", 1, "*conn"⟩) := by
    decide +kernel
  refine List.forall_mem_cons.mpr ⟨fun st => ?_, List.forall_mem_singleton.mpr fun st => ?_⟩
  · rw [TypeLookup.run_lookup, answers, hhandle]
    rfl
  · rw [TypeLookup.run_lookup, answers, hpointer]
    rfl

def handleName : Value × Value :=
  (.text "pool.h", .text "Handle")

def pointerName : Value × Value :=
  (.text "pool.h", .text "*conn")

/-- Both names stand for one type, which keeps the first; nothing is taken after the freeze, and a
registry of both has the same members in another order. -/
theorem requests_registered :
    Answers (TypeLookup.lookup (σ := Log) [unit]) answers (RegistryRequest.questions requests) ∧
    (∃ s : RegistrySession Log,
      s = after (TypeLookup.lookup [unit]) { state := #[] } requests ∧
      s.registry.size = 1 ∧ ⟨"c:@S@conn", 1, "Handle"⟩ ∈ s.registry.types ∧
      s.registry.contains ⟨"c:@S@conn", 1, "*conn"⟩ = true ∧
      (serve (TypeLookup.lookup [unit]) (.register (.text "pool.h") (.text "p::Handle"))).run s =
        (.error .frozenRegistry, s)) ∧
    ∃ r r' : Registry,
      ((build (TypeLookup.lookup [unit]) [handleName, pointerName]).run (#[] : Log)).1 = .ok r ∧
      ((build (TypeLookup.lookup [unit]) [pointerName, handleName, pointerName]).run
        (#[] : Log)).1 = .ok r' ∧
      ∀ c, r.contains c = r'.contains c := by
  have hanswered : answered answers (RegistryRequest.questions requests) =
      [⟨"c:@S@conn", 1, "Handle"⟩, ⟨"c:@S@conn", 1, "*conn"⟩] := by
    decide +kernel
  obtain ⟨hshows, hbuild⟩ := registered_by_history requests_answered (#[] : Log)
  refine ⟨requests_answered, ⟨_, rfl, ?_, ?_, ?_, ?_⟩, ?_⟩
  · rw [hshows.size, hanswered]
    decide
  · rw [hshows.named, hanswered]
    decide
  · rw [hshows.contains, hanswered]
    exact ⟨_, List.mem_cons_self, rfl, rfl⟩
  · exact hshows.refused (by simp [requests]) _ _
  · refine hbuild [handleName] [pointerName] [pointerName, handleName] [pointerName]
      requests_answered (fun p => ?_) #[] #[]
    simp only [List.cons_append, List.nil_append, List.mem_cons, List.not_mem_nil, or_false]
    tauto

end HandleTypes

end NPlusOne
