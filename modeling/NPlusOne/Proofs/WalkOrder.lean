import NPlusOne.Proofs.CallListing
import NPlusOne.Proofs.NodeSites

namespace NPlusOne

/-- What a walk does at a node. -/
inductive Deed where
  | expand (call : Node)
  | report (use : Node)
  /-- The children of a node cannot be listed. -/
  | fail (e : Failure)

namespace Deed

/-- The deeds up to the first report. -/
def untilReport : List Deed → List Deed
  | [] => []
  | report use :: _ => [report use]
  | expand call :: rest => expand call :: untilReport rest
  | fail e :: rest => fail e :: untilReport rest

end Deed

namespace LoopSearch

variable {ρ : Type} {s : LoopSearch ρ} {u : TranslationUnit} {n m : Node}

mutual

/-- What is done in a tree, by recursion: a query use is reported and nothing is done below it; a
call is expanded, and then come the children in their order. -/
def deeds (s : LoopSearch ρ) (u : TranslationUnit) : Node → List Deed
  | .mk id info children =>
    if s.isQueryUse u (.mk id info children) then [.report (.mk id info children)]
    else
      (if info.kind = .call then [.expand (.mk id info children)] else []) ++
        match info.failure with
        | some reason => [.fail (.children reason)]
        | none => deedsAll s u children

/-- What is done in a list of trees. -/
def deedsAll (s : LoopSearch ρ) (u : TranslationUnit) : List Node → List Deed
  | [] => []
  | n :: rest => deeds s u n ++ deedsAll s u rest

end

theorem deeds_of_use (h : s.isQueryUse u n = true) : s.deeds u n = [.report n] := by
  cases n
  rw [deeds, if_pos h]

theorem deeds_of_children {children : List Node} (h : s.isQueryUse u n = false)
    (hc : n.children = .ok children) :
    s.deeds u n = (if n.kind = .call then [.expand n] else []) ++ s.deedsAll u children := by
  obtain ⟨id, info, subtrees⟩ := n
  rw [deeds, if_neg (by simp [h])]
  have hfailure : info.failure = none := Node.failure_of_children hc
  obtain rfl := Node.subtrees_of_children hc
  rw [hfailure]
  rfl

mutual

theorem kind_of_mem_deeds (n : Node) {call : Node} (h : .expand call ∈ s.deeds u n) :
    call.kind = .call := by
  obtain ⟨id, info, children⟩ := n
  rw [deeds] at h
  split at h
  next => cases List.mem_singleton.mp h
  next =>
    rcases List.mem_append.mp h with h | h
    · split at h
      next hcall =>
        cases List.mem_singleton.mp h
        exact hcall
      next => cases h
    · split at h
      next => cases List.mem_singleton.mp h
      next => exact kind_of_mem_deedsAll children h

theorem kind_of_mem_deedsAll (ns : List Node) {call : Node} (h : .expand call ∈ s.deedsAll u ns) :
    call.kind = .call := by
  cases ns with
  | nil => cases h
  | cons n rest =>
    rw [deedsAll] at h
    rcases List.mem_append.mp h with h | h
    · exact kind_of_mem_deeds n h
    · exact kind_of_mem_deedsAll rest h

end

/-- Of the deeds in a body a function needs those up to the first report, a loop all. -/
def cut (root : WalkRoot) (deeds : List Deed) : List Deed :=
  if root.function.isSome then Deed.untilReport deeds else deeds

/-- What is to be done at a node: a query use is reported and a call is expanded. -/
def Due (s : LoopSearch ρ) (u : TranslationUnit) (m : Node) (deed : Deed) : Prop :=
  s.isQueryUse u m = true ∧ deed = .report m ∨ m.kind = .call ∧ deed = .expand m

/-- The site leads past nodes that are no query uses to a node where the deed is due. -/
def DeedAt (s : LoopSearch ρ) (u : TranslationUnit) (n : Node) (site : List Nat) (deed : Deed) :
    Prop :=
  ∃ above m, n.Descent site above m ∧ (∀ x ∈ above, s.isQueryUse u x = false) ∧ s.Due u m deed

/-- The children can be listed wherever no query use stands in the way. -/
def Open (s : LoopSearch ρ) (u : TranslationUnit) (n : Node) : Prop :=
  ∀ site above m, n.Descent site above m → (∀ x ∈ above, s.isQueryUse u x = false) →
    s.isQueryUse u m = false → m.info.failure = none

section Sites

variable {site : List Nat} {deed : Deed}

theorem Open.child (h : s.Open u n) (hno : s.isQueryUse u n = false) {c : Node}
    (hc : c ∈ n.subtrees) : s.Open u c := by
  intro site above m hdescent habove hm
  obtain ⟨i, hi⟩ := List.mem_iff_getElem?.mp hc
  exact h _ _ m (.down hi hdescent) (List.forall_mem_cons.mpr ⟨hno, habove⟩) hm

theorem due_of_use (h : s.isQueryUse u n = true) : s.Due u n deed ↔ deed = .report n := by
  have hkind : n.kind ≠ .call := by
    intro hcall
    simp [isQueryUse, hcall, NodeKind.isIdentifier] at h
  simp [Due, h, hkind]

theorem due_of_not_use (h : s.isQueryUse u n = false) :
    s.Due u n deed ↔ n.kind = .call ∧ deed = .expand n := by
  simp [Due, h]

theorem deedAt_of_use (h : s.isQueryUse u n = true) :
    s.DeedAt u n site deed ↔ site = [] ∧ deed = .report n := by
  constructor
  · rintro ⟨above, m, hdescent, habove, hdue⟩
    cases hdescent with
    | here => exact ⟨rfl, (due_of_use h).mp hdue⟩
    | down => cases h.symm.trans (habove n List.mem_cons_self)
  · rintro ⟨rfl, rfl⟩
    exact ⟨[], n, .here n, by simp, (due_of_use h).mpr rfl⟩

theorem deedAt_iff (h : s.isQueryUse u n = false) : s.DeedAt u n site deed ↔
    (site = [] ∧ deed = .expand n) ∧ n.kind = .call ∨ Among (s.DeedAt u) n.subtrees site deed := by
  constructor
  · rintro ⟨above, m, hdescent, habove, hdue⟩
    cases hdescent with
    | here =>
      obtain ⟨hcall, hdeed⟩ := (due_of_not_use h).mp hdue
      exact .inl ⟨⟨rfl, hdeed⟩, hcall⟩
    | @down _ c _ i site above hc hdescent =>
      exact .inr ⟨i, site, c, rfl, hc, above, m, hdescent,
        fun x hx => habove x (List.mem_cons_of_mem n hx), hdue⟩
  · rintro (⟨⟨rfl, hdeed⟩, hcall⟩ | ⟨i, rest, c, rfl, hc, above, m, hdescent, habove, hdue⟩)
    · exact ⟨[], n, .here n, by simp, (due_of_not_use h).mpr ⟨hcall, hdeed⟩⟩
    · exact ⟨n :: above, m, .down hc hdescent, List.forall_mem_cons.mpr ⟨h, habove⟩, hdue⟩

mutual

/-- The recursion does everything at its site, in the order of the sites. -/
theorem enumerates_deeds (n : Node) (h : s.Open u n) :
    Enumerates (s.DeedAt u n) (s.deeds u n) := by
  cases hu : s.isQueryUse u n with
  | true =>
    rw [deeds_of_use hu]
    exact .singleton fun _ _ => deedAt_of_use hu
  | false =>
    obtain ⟨id, info, children⟩ := n
    have hfailure : info.failure = none := h [] [] _ (.here _) (by simp) hu
    have hinner : Enumerates (Among (s.DeedAt u) children) (s.deedsAll u children) :=
      enumerates_deedsAll children fun c hc => h.child hu hc
    rw [deeds_of_children hu (Node.children_mk hfailure)]
    by_cases hcall : (Node.mk id info children).kind = .call
    · rw [if_pos hcall, List.singleton_append]
      refine hinner.above fun site deed => ?_
      rw [deedAt_iff hu, and_iff_left hcall]
      rfl
    · rw [if_neg hcall, List.nil_append]
      refine hinner.of_iff fun site deed => ?_
      rw [deedAt_iff hu]
      exact (or_iff_right fun hn => hcall hn.2).symm

theorem enumerates_deedsAll (ns : List Node) (h : ∀ n ∈ ns, s.Open u n) :
    Enumerates (Among (s.DeedAt u) ns) (s.deedsAll u ns) := by
  cases ns with
  | nil => exact .empty
  | cons n rest =>
    exact .cons (enumerates_deeds n (h n List.mem_cons_self))
      (enumerates_deedsAll rest fun m hm => h m (List.mem_cons_of_mem n hm))

end

end Sites

variable [HasLog ρ]

/-- Does one thing; answers whether it came upon a query. -/
def act (s : LoopSearch ρ) (expand : Cursor → Task (WalkState ρ) Bool) (root : WalkRoot) :
    Deed → Task (WalkState ρ) Bool
  | .expand call => expand ⟨root.unit, call⟩
  | .report use => do
    s.report (root.target <|> some use)
    if let some id := root.function then
      modify fun st => { st with memo := st.memo.record id true }
    return true
  | .fail e => throw e

/-- Does one thing after the other; answers whether one came upon a query. -/
def carryOut (s : LoopSearch ρ) (expand : Cursor → Task (WalkState ρ) Bool) (root : WalkRoot) :
    List Deed → Bool → Task (WalkState ρ) Bool
  | [], found => return found
  | deed :: rest, found => do
    let reached ← s.act expand root deed
    carryOut s expand root rest (found || reached)

section Walk

variable {expand : Cursor → Task (WalkState ρ) Bool} {root : WalkRoot}

end Walk

section Reports

/-- The task adds to the reports and takes none away. -/
def Grows {α : Type} (task : Task (WalkState ρ) α) : Prop :=
  ∀ st, ∃ more, (task.run st).2.reports = st.reports ++ more

variable {expand : Cursor → Task (WalkState ρ) Bool} {root : WalkRoot} {st st' : WalkState ρ}

end Reports

end LoopSearch

namespace Sample

/-- A query use with another one below it. -/
def outer : Node :=
  .mk 33 { kind := .declRef, place := place 106, type := some 0 } [use 34 108]

end Sample

end NPlusOne
