import NPlusOne.Proofs.ResolverRun
import NPlusOne.Proofs.SearchTraversal

namespace NPlusOne

/-- Nothing was walked or indexed between the two states. The units have stayed, and the new ones
come from the parser. -/
structure WalkState.Widens (program : Program) (st st' : WalkState ProjectState) : Prop where
  walked : st'.walked = st.walked
  index : st'.project.index = st.project.index
  grows : st.project.cache.Grows st'.project.cache
  parsed : ∀ path loaded, st'.project.cache.find? path = some loaded →
    st.project.cache.find? path = some loaded ∨
      ∃ earlier, program.parse path earlier = .unit loaded.unit

/-- The units are the same ones. -/
theorem WalkState.Widens.of_cache (program : Program) {st st' : WalkState ProjectState}
    (hw : st'.walked = st.walked) (hi : st'.project.index = st.project.index)
    (hc : st'.project.cache.units = st.project.cache.units) : st.Widens program st' := by
  have hfind (path : String) : st'.project.cache.find? path = st.project.cache.find? path := by
    rw [UnitCache.find?, hc]
    rfl
  exact ⟨hw, hi, fun path loaded h => (hfind path).trans h,
    fun path loaded h => .inl ((hfind path).symm.trans h)⟩

/-- The body lies in a file of which, together with the body's unit, the property holds. -/
def Cursor.Housed (houses : String → TranslationUnit → Prop) (c : Cursor) : Prop :=
  ∃ file, c.node.file? = some file ∧ houses file c.unit ∧ c.unit.Has c.node

theorem Cursor.Housed.near {houses : String → TranslationUnit → Prop} {c d : Cursor}
    (h : c.Housed houses) (hunit : d.unit = c.unit) (hnode : d.node ∈ c.unit.nodes)
    (hfile : d.node.file? = c.node.file?) : d.Housed houses := by
  obtain ⟨file, hc, hh, _⟩ := h
  exact ⟨file, hfile.trans hc, hunit ▸ hh, .inl (hunit ▸ hnode)⟩

namespace Resolver

variable {r : Resolver} {p p' : ProjectState} {file : String} {u : TranslationUnit} {c : Cursor}

/-- The file is the project's, and the unit is the one that is kept for it. -/
def Houses (r : Resolver) (p : ProjectState) (file : String) (u : TranslationUnit) : Prop :=
  r.inProject file = true ∧ p.cache.Holds (r.frontEnd.files.absolute file) u

/-- The body belongs to the unit that is kept for its file. -/
def AtHome (r : Resolver) (p : ProjectState) (c : Cursor) : Prop :=
  c.Housed (r.Houses p)

theorem Houses.grown (h : r.Houses p file u) (hg : p.cache.Grows p'.cache) :
    r.Houses p' file u :=
  ⟨h.1, h.2.grown hg⟩

theorem AtHome.grown (h : r.AtHome p c) (hg : p.cache.Grows p'.cache) : r.AtHome p' c := by
  obtain ⟨file, hfile, hh, hhas⟩ := h
  exact ⟨file, hfile, hh.grown hg, hhas⟩

/-- Bodies of one file that are both at home lie in one unit. -/
theorem AtHome.unit_eq {d : Cursor} (hc : r.AtHome p c) (hd : r.AtHome p d)
    (h : c.node.file? = d.node.file?) : c.unit = d.unit := by
  obtain ⟨file, hfile, hh, _⟩ := hc
  obtain ⟨other, hother, hh', _⟩ := hd
  cases hfile.symm.trans (h.trans hother)
  exact hh.2.unique hh'.2

/-- The loops of a file in normal form are at home where its unit is. -/
theorem Houses.loop {loops : List Node} {loop : Node} (h : r.Houses p file u)
    (hn : Path.Normal file) (hl : u.loops file = .ok loops) (hm : loop ∈ loops) :
    r.AtHome p ⟨u, loop⟩ := by
  obtain ⟨hfile, hhas⟩ := TranslationUnit.has_loops hl hm
  exact ⟨file, hfile.trans (congrArg some hn), h, hhas⟩

/-- Definitions of a file that the project owns are at home. -/
theorem Holds.atHome {path : String} {ds : List Cursor} (h : r.Holds p path ds)
    (ho : r.Owns path) (hc : c ∈ ds) : r.AtHome p c := by
  obtain ⟨loaded, nodes, hfind, hnodes, rfl⟩ := h
  obtain ⟨node, hnode, rfl⟩ := List.mem_map.mp hc
  obtain ⟨hfile, hhas⟩ := TranslationUnit.has_functionDefinitions hnodes hnode
  exact ⟨path, hfile.trans (congrArg some ho.2), ⟨ho.1, loaded, hfind, rfl⟩, hhas⟩

def Indexed (r : Resolver) (p : ProjectState) : Prop :=
  ∀ index, p.index = some index → r.Lists index

theorem preserves_grown (r : Resolver) (cache : UnitCache) :
    r.Preserves fun p => cache.Grows p.cache ∧ r.Indexed p where
  load path p hp := ⟨hp.1.trans (FrontEnd.loads_load r.frontEnd path p.cache).grows, hp.2⟩
  log _ _ _ hp := hp
  index index p hi hp := by
    refine ⟨hp.1, ?_⟩
    rintro _ ⟨⟩
    exact hi

/-- Between the two states units have stayed, and only bodies at home were walked. -/
structure Advances (r : Resolver) (st st' : WalkState ProjectState) : Prop where
  grows : st.project.cache.Grows st'.project.cache
  indexed : r.Indexed st'.project
  walked : ∀ c ∈ st'.walked, c ∈ st.walked ∨ r.AtHome st'.project c

namespace Advances

variable {st st' st'' : WalkState ProjectState}

theorem refl (h : r.Indexed st.project) : r.Advances st st :=
  ⟨.refl _, h, fun _ hc => .inl hc⟩

theorem trans (h : r.Advances st st') (h' : r.Advances st' st'') : r.Advances st st'' where
  grows := h.grows.trans h'.grows
  indexed := h'.indexed
  walked c hc := by
    rcases h'.walked c hc with hc | hc
    · exact (h.walked c hc).imp_right (·.grown h'.grows)
    · exact .inr hc

theorem widened {program : Program} (h : r.Advances st st') (hw : st'.Widens program st'') :
    r.Advances st st'' := by
  refine h.trans ⟨hw.grows, ?_, fun c hc => .inl (hw.walked ▸ hc)⟩
  intro index hi
  exact h.indexed index (hw.index ▸ hi)

theorem walk (h : r.Advances st st') (hc : r.AtHome st'.project c) :
    r.Advances st { st' with walked := st'.walked ++ [c] } := by
  refine h.trans ⟨.refl _, h.indexed, ?_⟩
  intro d hd
  rcases List.mem_append.mp hd with hd | hd
  · exact .inl hd
  · exact .inr (List.mem_singleton.mp hd ▸ hc)

theorem resolve (h : r.Advances st st') (callee : Cursor) :
    r.Advances st { st' with project := ((r.resolve callee).run st'.project).2 } := by
  obtain ⟨hg, hi⟩ := (r.preserves_grown st'.project.cache).resolve callee st'.project
    ⟨.refl _, h.indexed⟩
  exact h.trans ⟨hg, hi, fun _ hc => .inl hc⟩

end Advances

end Resolver

namespace LoopSearch

variable {r : Resolver} {s : LoopSearch ProjectState} {st : WalkState ProjectState}

/-- A search keeps to bodies that are at home, whatever state it starts from. -/
theorem throughout_advances (hr : s.resolve = r.resolve) :
    s.Throughout (fun st _ task => Task.Keeps (r.Advances st) task)
      (fun st => r.AtHome st.project) where
  stepwise _ := Task.Keeps.stepwise _
  look _ _ _ hf := .bind .get fun st => hf st.memo
  write _ _ _ _ := .modify fun _ h => h.widened (.of_cache {} rfl rfl rfl)
  memo _ _ _ := fun _ h => h.widened (.of_cache {} rfl rfl rfl)
  emit _ _ := .modify fun _ h => h.widened (.of_cache {} rfl rfl rfl)
  walk _ _ hc := .modify fun _ h => h.walk (hc.grown h.grows)
  near _ _ _ := Cursor.Housed.near
  elsewhere st check callee call hcheck := by
    intro st' h'
    have hnow := h'.resolve callee
    rw [hr, Task.run_bind, Task.run_within]
    cases hres : ((r.resolve callee).run st'.project).1 with
    | error e => exact hnow
    | ok found =>
      cases found with
      | none => exact hnow
      | some ds =>
        obtain ⟨path, ho, hds⟩ :=
          Resolver.resolve_holds (Resolver.locate_owns callee) st'.project h'.indexed _ hres ds rfl
        -- The definitions are at home in the state that the resolver has left.
        have hall := stepwise_checkAll (Task.Keeps.stepwise _) (fun d hd =>
          hcheck { st' with project := ((r.resolve callee).run st'.project).2 } d call
            (hds.atHome ho hd)) false
        exact hnow.trans (hall _ (.refl hnow.indexed))

/-- From a loop at home a search walks only bodies at home. -/
theorem keeps_checkLoop (hr : s.resolve = r.resolve) {c : Cursor} (hc : r.AtHome st.project c) :
    Task.Keeps (r.Advances st) (s.checkLoop c) :=
  (throughout_advances hr).checkLoop hc

end LoopSearch

end NPlusOne
