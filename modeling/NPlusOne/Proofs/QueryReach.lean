import Mathlib.Logic.Relation
import NPlusOne.Proofs.SearchTrace

namespace NPlusOne

/-- The second node is the first one or lies below it, as far as the front end lists children. -/
inductive Node.Contains : Node → Node → Prop
  | self (n : Node) : Contains n n
  | under {n c m : Node} {children : List Node} : n.children = .ok children → c ∈ children →
    Contains c m → Contains n m

theorem Node.Contains.trans {a b c : Node} (h : a.Contains b) (h' : b.Contains c) :
    a.Contains c := by
  induction h with
  | self => exact h'
  | under hc hm _ ih => exact .under hc hm (ih h')

theorem Node.contains_iff {n m : Node} {children : List Node} (h : n.children = .ok children) :
    n.Contains m ↔ m = n ∨ ∃ c ∈ children, c.Contains m := by
  constructor
  · intro hm
    cases hm with
    | self => exact .inl rfl
    | under hc hmem hm =>
      cases h.symm.trans hc
      exact .inr ⟨_, hmem, hm⟩
  · rintro (rfl | ⟨c, hmem, hm⟩)
    · exact .self _
    · exact .under h hmem hm

namespace Cursor

theorem definition?_mem {c d : Cursor} (h : c.definition? = some d) :
    d.unit = c.unit ∧ d.node ∈ c.unit.nodes := by
  simp only [definition?, Option.bind_eq_bind, Option.bind_eq_some_iff] at h
  obtain ⟨id, _, node, hnode, heq⟩ := h
  cases heq
  exact ⟨rfl, Array.mem_of_getElem? hnode⟩

theorem referenced?_of_simpleCallee {c callee : Cursor}
    (h : c.simpleCallee = .ok (some callee)) : c.referenced? = some callee := by
  unfold simpleCallee at h
  split at h
  next => cases h
  next other hother =>
    split at h
    next => cases h
    next =>
      split at h
      next => cases h
      next => cases h
      next =>
        split at h
        next => cases h
        next plain _ => cases plain <;> simp_all

theorem unit_of_simpleCallee {c callee : Cursor} (h : c.simpleCallee = .ok (some callee)) :
    callee.unit = c.unit := by
  have href := referenced?_of_simpleCallee h
  simp only [referenced?, Option.bind_eq_bind, Option.bind_eq_some_iff] at href
  obtain ⟨_, _, _, _, heq⟩ := href
  cases heq
  rfl

end Cursor

theorem DeclarationId.file_of {n : Node} {id : DeclarationId} (h : DeclarationId.of n = .ok id) :
    n.file? = some id.file := by
  unfold DeclarationId.of at h
  unfold Node.file?
  split at h
  next place hp =>
    cases h
    simp [hp]
  next => simp at h

namespace LoopSearch

variable {ρ : Type} (s : LoopSearch ρ) (holds : ρ → Prop)

/-- The definitions that a call in a body of `file` is expanded to. -/
inductive Expands (file : Option String) (call : Cursor) : Cursor → Prop
  | here {callee d : Cursor} : call.simpleCallee = .ok (some callee) →
    file.bind (definitionHere · callee) = some d → Expands file call d
  | elsewhere {callee d : Cursor} {ds : List Cursor} : call.simpleCallee = .ok (some callee) →
    file.bind (definitionHere · callee) = none → s.Says holds callee (.ok (some ds)) → d ∈ ds →
    Expands file call d

/-- The body holds an identifier whose type issues queries. -/
def Uses (c : Cursor) : Prop :=
  ∃ n, c.node.Contains n ∧ s.isQueryUse c.unit n = true

/-- The expansion graph: some call in the first body is expanded to the second. -/
def Calls (c d : Cursor) : Prop :=
  ∃ n, c.node.Contains n ∧ n.kind = .call ∧ s.Expands holds c.node.file? ⟨c.unit, n⟩ d

/-- How a call in a body of `file` can fail before a function is entered. -/
inductive Raises (file : Option String) (call : Cursor) (e : Failure) : Prop
  | misread : call.simpleCallee = .error e → Raises file call e
  | lost {callee : Cursor} : call.simpleCallee = .ok (some callee) →
    file.bind (definitionHere · callee) = none → s.Says holds callee (.error e) →
    Raises file call e
  | unlocated {d : Cursor} : s.Expands holds file call d → DeclarationId.of d.node = .error e →
    Raises file call e

/-- The failure comes out of the body itself and not out of a function that it calls. -/
def Fails (c : Cursor) (e : Failure) : Prop :=
  ∃ n, c.node.Contains n ∧ (n.children = .error e ∨
    n.kind = .call ∧ s.Raises holds c.node.file? ⟨c.unit, n⟩ e)

/-- A chain of calls leads from the body to an identifier whose type issues queries. -/
inductive Reaches : Cursor → Prop
  | use {c : Cursor} : s.Uses c → Reaches c
  | call {c d : Cursor} : s.Calls holds c d → Reaches d → Reaches c

theorem reaches_iff {c : Cursor} :
    s.Reaches holds c ↔ s.Uses c ∨ ∃ d, s.Calls holds c d ∧ s.Reaches holds d := by
  constructor
  · intro h
    cases h with
    | use hu => exact .inl hu
    | call hc hr => exact .inr ⟨_, hc, hr⟩
  · rintro (hu | ⟨d, hc, hr⟩)
    · exact .use hu
    · exact .call hc hr

/-- No body of a set without query uses reaches a query when all its calls stay in the set or lead
to functions that reach none. -/
theorem not_reaches_of_closed {P : Cursor → Prop}
    (h : ∀ c, P c → ¬ s.Uses c ∧ ∀ d, s.Calls holds c d → P d ∨ ¬ s.Reaches holds d) {c : Cursor}
    (hc : P c) : ¬ s.Reaches holds c := by
  intro hr
  induction hr with
  | use hu => exact (h _ hc).1 hu
  | call hd hr ih =>
    rcases (h _ hc).2 _ hd with hp | hno
    · exact ih hp
    · exact hno hr

/-- The functions that can be met from a body. -/
abbrev Leads : Cursor → Cursor → Prop :=
  Relation.ReflTransGen (s.Calls holds)

/-- No cycle of calls can be met from a body. -/
def Acyclic (c : Cursor) : Prop :=
  ∀ d, s.Leads holds c d → ¬ Relation.TransGen (s.Calls holds) d d

/-- Different functions of a kind have different ids. -/
def Identified (met : Cursor → Prop) : Prop :=
  ∀ c d id, met c → met d → DeclarationId.of c.node = .ok id → DeclarationId.of d.node = .ok id →
    c = d

theorem Identified.mono {met met' : Cursor → Prop} (h : Identified met)
    (hm : ∀ d, met' d → met d) : Identified met' :=
  fun c d id hc hd => h c d id (hm c hc) (hm d hd)

/-- A question to the resolver has one answer, whatever was asked before. -/
structure Steady [HasLog ρ] : Prop extends s.Keeps holds where
  agree : ∀ {callee found found'}, s.Says holds callee (.ok found) →
    s.Says holds callee (.ok found') → found = found'

end LoopSearch

end NPlusOne
