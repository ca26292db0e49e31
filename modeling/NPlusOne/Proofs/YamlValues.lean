import NPlusOne.Proofs.YamlNodes
import NPlusOne.Yaml.Load

namespace NPlusOne

namespace Yaml

/-- A node is an atom that has a value. -/
def IsAtom (nodes : Array Node) (i : Nat) (w : Value) : Prop :=
  ∃ tag text kind, nodes[i]? = some (.scalar tag text) ∧ AtomKind.ofTag? tag = some kind ∧
    kind ≠ .timestamp ∧ kind.value text = .ok w

/-- A node is a list or a map. -/
def IsFrame (nodes : Array Node) (i : Nat) : Prop :=
  ∀ tag text, nodes[i]? ≠ some (.scalar tag text)

section Atoms

variable {nodes : Array Node} {i : Nat} {v w : Value}

theorem IsAtom.unique (h : IsAtom nodes i v) (h' : IsAtom nodes i w) : v = w := by
  obtain ⟨tag, text, kind, hi, hkind, _, hv⟩ := h
  obtain ⟨tag', text', kind', hi', hkind', _, hw⟩ := h'
  cases hi.symm.trans hi'
  cases hkind.symm.trans hkind'
  cases hv.symm.trans hw
  rfl

theorem IsAtom.not_isFrame (h : IsAtom nodes i v) : ¬ IsFrame nodes i := by
  obtain ⟨tag, text, _, hi, _⟩ := h
  exact fun hframe => hframe tag text hi

theorem mapLinks_of_map {α : Type} {x : Except Failure α} {make : α → Value}
    (hmake : ∀ a f, (make a).mapLinks f = make a) (h : x.map make = .ok v) (f : Nat → Value) :
    v.mapLinks f = v := by
  cases x with
  | error => cases h
  | ok a =>
    cases h
    exact hmake a f

theorem AtomKind.mapLinks_value {kind : AtomKind} {text : String} (h : kind.value text = .ok v)
    (f : Nat → Value) : v.mapLinks f = v := by
  cases kind with
  | str | null =>
    cases h
    rfl
  | bool | int | float | binary | timestamp => exact mapLinks_of_map (fun _ _ => rfl) h f

theorem IsAtom.mapLinks (h : IsAtom nodes i v) (f : Nat → Value) : v.mapLinks f = v := by
  obtain ⟨_, _, _, _, _, _, hv⟩ := h
  exact AtomKind.mapLinks_value hv f

theorem Depicts.isAtom_text {s : String} (h : Depicts nodes i (.text s)) :
    IsAtom nodes i (.text s) := by
  cases h with
  | atom hid hm =>
    obtain ⟨kind, hkind, htime, hv⟩ := hm
    exact ⟨_, _, kind, hid, hkind, htime, hv⟩

theorem ofTag?_seq : AtomKind.ofTag? (coreTag "seq") = none ∧
    FrameKind.ofTag? (coreTag "seq") = some .seq := by
  decide

theorem ofTag?_map : AtomKind.ofTag? (coreTag "map") = none ∧
    FrameKind.ofTag? (coreTag "map") = some .map := by
  decide

/-- A list or a map is not an atom, and there is a kind of cells for it. -/
theorem Depicts.frame (h : Depicts nodes i v) (hv : ¬ IsAtom nodes i v) :
    IsFrame nodes i ∧ ∃ node kind, nodes[i]? = some node ∧ AtomKind.ofTag? node.tag = none ∧
      FrameKind.ofTag? node.tag = some kind := by
  cases h with
  | atom hid hm =>
    obtain ⟨kind, hkind, htime, hv'⟩ := hm
    exact absurd ⟨_, _, kind, hid, hkind, htime, hv'⟩ hv
  | list hid =>
    refine ⟨fun tag text heq => ?_, _, .seq, hid, ofTag?_seq⟩
    cases hid.symm.trans heq
  | map hid =>
    refine ⟨fun tag text heq => ?_, _, .map, hid, ofTag?_map⟩
    cases hid.symm.trans heq

end Atoms

namespace Build

/-- A value stands for a node: it is the value of an atom, or the link to the cell of a list or a
map. -/
def Stands (nodes : Array Node) (b : Build) (i : Nat) (w : Value) : Prop :=
  IsAtom nodes i w ∨ ∃ c, w = .link c ∧ b.opened[c]? = some (i, c)

/-- Every list or map of which there is a value has a cell of its own. -/
structure Sound (nodes : Array Node) (b : Build) : Prop where
  nodes_eq : b.nodes = nodes
  made_size : b.made.size = nodes.size
  cells_size : b.cells.size = b.opened.size
  made : ∀ (i : Nat) (w : Value), b.made[i]? = some (some w) → b.Stands nodes i w
  opened : ∀ (c : Nat) (p : Nat × Nat), b.opened[c]? = some p → p.2 = c ∧
    b.made[p.1]? = some (some (.link c)) ∧
    IsFrame nodes p.1 ∧ ∃ v, Depicts nodes p.1 v

/-- Cells that are open stay open. -/
def Keeps (b b' : Build) : Prop :=
  ∀ (c : Nat) (p : Nat × Nat), b.opened[c]? = some p → b'.opened[c]? = some p

/-- Cells are opened, and what the others hold stays. -/
structure Grows (b b' : Build) : Prop where
  opened : b.Keeps b'
  cells : ∀ (c : Nat) (v : Value), b.cells[c]? = some v → b'.cells[c]? = some v

variable {nodes : Array Node} {b b' b'' : Build} {i : Nat} {v w : Value}

theorem Grows.refl (b : Build) : b.Grows b := ⟨fun _ _ => id, fun _ _ => id⟩

theorem Grows.trans (h : b.Grows b') (h' : b'.Grows b'') : b.Grows b'' :=
  ⟨fun c p hc => h'.opened c p (h.opened c p hc), fun c v hc => h'.cells c v (h.cells c v hc)⟩

theorem Stands.mono (h : b.Stands nodes i w) (hk : b.Keeps b') : b'.Stands nodes i w := by
  rcases h with hatom | ⟨c, hw, hc⟩
  · exact .inl hatom
  · exact .inr ⟨c, hw, hk c _ hc⟩

theorem Stands.eq_of_isAtom (h : b.Stands nodes i w) (hb : b.Sound nodes)
    (hatom : IsAtom nodes i v) : w = v := by
  rcases h with hw | ⟨c, rfl, hc⟩
  · exact hw.unique hatom
  · exact absurd (hb.opened c _ hc).2.2.1 hatom.not_isFrame

/-- The value of a node is put down. -/
def record (b : Build) (i : Nat) (w : Value) : Build :=
  { b with made := b.made.set! i (some w) }

/-- A cell is opened for a node. -/
def openCell (b : Build) (i : Nat) (start : Value) : Build :=
  { b with cells := b.cells.push start, opened := b.opened.push (i, b.cells.size) }

theorem getElem?_record {j : Nat} {u : Value} (h : (b.record i w).made[j]? = some (some u)) :
    j = i ∧ u = w ∨ b.made[j]? = some (some u) := by
  rw [record, Array.set!_eq_setIfInBounds, Array.getElem?_setIfInBounds] at h
  split at h
  next heq =>
    split at h
    next =>
      cases h
      exact .inl ⟨heq.symm, rfl⟩
    next => cases h
  next => exact .inr h

theorem getElem?_record_of_made {j : Nat} (hi : b.made.getD i none = none)
    (h : b.made[j]? = some (some v)) : (b.record i w).made[j]? = some (some v) := by
  rw [record, Array.set!_eq_setIfInBounds, Array.getElem?_setIfInBounds_ne, h]
  rintro rfl
  rw [Array.getD_eq_getD_getElem?, h] at hi
  cases hi

theorem Sound.record (h : b.Sound nodes) (hi : b.made.getD i none = none)
    (hatom : IsAtom nodes i w) : (b.record i w).Sound nodes where
  nodes_eq := h.nodes_eq
  made_size := by simpa [Build.record] using h.made_size
  cells_size := h.cells_size
  made j u hj := by
    rcases getElem?_record hj with ⟨rfl, rfl⟩ | hj
    · exact .inl hatom
    · exact h.made j u hj
  opened c p hc := by
    obtain ⟨hp, hmade, hframe⟩ := h.opened c p hc
    exact ⟨hp, getElem?_record_of_made hi hmade, hframe⟩

theorem grows_openCell (start : Value) : b.Grows ((b.openCell i start).record i w) where
  opened c p hc := by
    have hlt := (Array.getElem?_eq_some_iff.mp hc).1
    simpa [Build.record, openCell, Array.getElem?_push, Nat.ne_of_lt hlt] using hc
  cells c v hc := by
    have hlt := (Array.getElem?_eq_some_iff.mp hc).1
    simpa [Build.record, openCell, Array.getElem?_push, Nat.ne_of_lt hlt] using hc

theorem Sound.openCell (h : b.Sound nodes) (hi : b.made.getD i none = none)
    (hframe : IsFrame nodes i) (hd : Depicts nodes i v) (start : Value) :
    ((b.openCell i start).record i (.link b.cells.size)).Sound nodes where
  nodes_eq := h.nodes_eq
  made_size := by simpa [Build.record, Build.openCell] using h.made_size
  cells_size := by simpa [Build.record, Build.openCell] using h.cells_size
  made j u hj := by
    rcases getElem?_record hj with ⟨rfl, rfl⟩ | hj
    · exact .inr ⟨_, rfl, by simp [Build.record, Build.openCell, h.cells_size]⟩
    · exact (h.made j u hj).mono (grows_openCell start).opened
  opened c p hc := by
    have hp : b.opened[c]? = some p ∨ c = b.cells.size ∧ p = (i, b.cells.size) := by
      have hpush : (b.opened.push (i, b.cells.size))[c]? = some p := hc
      rw [Array.getElem?_push, ← h.cells_size] at hpush
      split at hpush
      next heq => exact .inr ⟨heq, by simpa using hpush.symm⟩
      next => exact .inl hpush
    rcases hp with hp | ⟨rfl, rfl⟩
    · obtain ⟨hpc, hmade, hrest⟩ := h.opened c p hp
      exact ⟨hpc, getElem?_record_of_made (b := b.openCell i start) hi hmade, hrest⟩
    · have hlt : i < b.made.size := h.made_size ▸ hd.lt_size
      refine ⟨rfl, ?_, hframe, v, hd⟩
      simp [Build.record, Build.openCell, hlt]

end Build

/-- A step gives a result that is as it should be, and what was made before stays. -/
def Makes {α : Type} (nodes : Array Node) (b : Build) (m : Building α) (post : α → Build → Prop) :
    Prop :=
  ∃ a b', m.run b = .ok (a, b') ∧ b'.Sound nodes ∧ b.Grows b' ∧ post a b'

section Steps

variable {α β : Type} {nodes : Array Node} {b : Build} {m : Building α} {f : α → Building β}
  {post : α → Build → Prop} {post' : β → Build → Prop} {i : Nat} {v w : Value}

theorem makes_pure {a : α} (hb : b.Sound nodes) (h : post a b) : Makes nodes b (pure a) post :=
  ⟨a, b, rfl, hb, .refl b, h⟩

theorem Makes.bind (h : Makes nodes b m post)
    (hf : ∀ a b', b'.Sound nodes → b.Grows b' → post a b' → Makes nodes b' (f a) post') :
    Makes nodes b (m >>= f) post' := by
  obtain ⟨a, b', hrun, hb', hg, hpost⟩ := h
  obtain ⟨c, b'', hrun', hb'', hg', hpost'⟩ := hf a b' hb' hg hpost
  exact ⟨c, b'', (run_bind_ok hrun).trans hrun', hb'', hg.trans hg', hpost'⟩

theorem Makes.after {a : α} (h : Makes nodes b (f a) post') (hrun : m.run b = .ok (a, b)) :
    Makes nodes b (m >>= f) post' := by
  obtain ⟨c, b', hrun', hrest⟩ := h
  exact ⟨c, b', (run_bind_ok hrun).trans hrun', hrest⟩

end Steps

namespace Building

section Values

variable {nodes : Array Node} {b : Build} {i : Nat} {v w : Value}

theorem nodeAt_run (hb : b.Sound nodes) {node : Node} (hi : nodes[i]? = some node) :
    (nodeAt i).run b = .ok (node, b) := by
  have hrun : (nodeAt i).run b = .ok (b.nodes[i]?.getD (.scalar "" ""), b) := rfl
  rw [hrun, hb.nodes_eq, hi]
  rfl

theorem make_atom (hb : b.Sound nodes) (h : IsAtom nodes i w) : (make i).run b = .ok (w, b) := by
  obtain ⟨tag, text, kind, hi, hkind, htime, hw⟩ := h
  have htext : (textAt (b.nodes.size + 1) i).run b = .ok (text, b) := by
    rw [textAt, run_bind_ok (nodeAt_run hb hi)]
    rfl
  rw [make, run_bind_ok (nodeAt_run hb hi), Node.tag, hkind]
  rw [run_get_bind, run_bind_ok htext]
  simp only [htime, decide_false, Bool.false_and, Bool.false_eq_true, if_false, hw]
  rfl

theorem make_frame (hb : b.Sound nodes) {node : Node} {kind : FrameKind}
    (hi : nodes[i]? = some node) (hatom : AtomKind.ofTag? node.tag = none)
    (hkind : FrameKind.ofTag? node.tag = some kind) :
    (make i).run b = .ok (.link b.cells.size, b.openCell i kind.start) := by
  rw [make, run_bind_ok (nodeAt_run hb hi), hatom, hkind]
  rfl

/-- The value of a node can always be had. -/
theorem makes_valueAt (hb : b.Sound nodes) (hd : Depicts nodes i v) :
    Makes nodes b (valueAt i) fun w b' => b'.Stands nodes i w := by
  have hlt : i < b.made.size := hb.made_size ▸ hd.lt_size
  cases hmade : b.made.getD i none with
  | some w =>
    have hw : b.made[i]? = some (some w) := by
      rw [Array.getD_eq_getD_getElem?] at hmade
      cases hi : b.made[i]? with
      | none => simp [hi] at hmade
      | some u => simpa [hi] using hmade
    refine ⟨w, b, ?_, hb, .refl b, hb.made i w hw⟩
    rw [valueAt, run_get_bind, hmade]
    rfl
  | none =>
    have hrun : ∀ {w b'}, (make i).run b = .ok (w, b') →
        (valueAt i).run b = .ok (w, b'.record i w) := by
      intro w b' hmake
      rw [valueAt, run_get_bind, hmade, run_bind_ok hmake]
      rfl
    by_cases hatom : IsAtom nodes i v
    · exact ⟨v, _, hrun (make_atom hb hatom), hb.record hmade hatom, ⟨fun _ _ => id, fun _ _ => id⟩,
        .inl hatom⟩
    · obtain ⟨hframe, node, kind, hi, hno, hkind⟩ := hd.frame hatom
      refine ⟨_, _, hrun (make_frame hb hi hno hkind), hb.openCell hmade hframe hd _,
        Build.grows_openCell _, .inr ⟨_, rfl, ?_⟩⟩
      simp [Build.record, Build.openCell, hb.cells_size]

end Values

section Contents

variable {nodes : Array Node} {b : Build} {i : Nat} {v w : Value}

theorem makes_items {ids : List Nat} {vs : List Value} (h : List.Forall₂ (Depicts nodes) ids vs)
    (hb : b.Sound nodes) :
    Makes nodes b (ids.mapM valueAt) fun ws b' => List.Forall₂ (b'.Stands nodes) ids ws := by
  induction h generalizing b with
  | nil => exact makes_pure hb .nil
  | cons hv _ ih =>
    rw [List.mapM_cons]
    refine (makes_valueAt hb hv).bind fun w b' hb' _ hw => ?_
    refine (ih hb').bind fun ws b'' hb'' hg hws => ?_
    exact makes_pure hb'' (.cons (hw.mono hg.opened) hws)

theorem forIn_run {α : Type} {xs : List α} {f : α → PUnit → Building (ForInStep PUnit)}
    (h : ∀ x ∈ xs, (f x ⟨⟩).run b = .ok (.yield ⟨⟩, b)) : (forIn xs ⟨⟩ f).run b = .ok (⟨⟩, b) := by
  induction xs with
  | nil => rfl
  | cons x xs ih =>
    rw [List.forIn_cons, run_bind_ok (h x List.mem_cons_self)]
    exact ih fun y hy => h y (List.mem_cons_of_mem x hy)

theorem entriesAt_run (hb : b.Sound nodes) {tag : String} {pairs : List (Nat × Nat)}
    (hi : nodes[i]? = some (.mapping tag pairs)) : (entriesAt i).run b = .ok (pairs, b) := by
  rw [entriesAt, run_bind_ok (nodeAt_run hb hi)]
  rfl

/-- Nothing is merged into a map whose keys are atoms. -/
theorem takeMerged_run (hb : b.Sound nodes) {tag : String} {pairs : List (Nat × Nat)}
    (hi : nodes[i]? = some (.mapping tag pairs)) (hkeys : ∀ p ∈ pairs, ∃ v, IsAtom nodes p.1 v)
    (n : Nat) : (takeMerged (n + 1) i 0).run b = .ok ([], b) := by
  have htags : ∀ p ∈ pairs, (nodes[p.1]?.getD (.scalar "" "")).tag ≠ coreTag "merge" ∧
      (nodes[p.1]?.getD (.scalar "" "")).tag ≠ coreTag "value" := by
    intro p hp
    obtain ⟨_, tag, text, kind, hnode, hkind, _⟩ := hkeys p hp
    rw [hnode]
    constructor
    · rintro rfl
      cases hkind
    · rintro rfl
      cases hkind
  have hown : ((pairs.drop 0).takeWhile fun p =>
      decide ((nodes[p.1]?.getD (.scalar "" "")).tag ≠ coreTag "merge")) = pairs := by
    rw [List.drop_zero, List.takeWhile_eq_self_iff]
    exact fun p hp => decide_eq_true (htags p hp).1
  rw [takeMerged, run_bind_ok (entriesAt_run hb hi), run_get_bind]
  simp only [hb.nodes_eq]
  rw [hown]
  rw [run_bind_ok (forIn_run fun p hp => ?_)]
  · rw [Nat.zero_add, List.getElem?_eq_none (Nat.le_refl _)]
    rfl
  · simp only [(htags p hp).2, if_false]
    rfl

theorem flatten_run (hb : b.Sound nodes) {tag : String} {pairs : List (Nat × Nat)}
    (hi : nodes[i]? = some (.mapping tag pairs)) (hkeys : ∀ p ∈ pairs, ∃ v, IsAtom nodes p.1 v) :
    (flatten i).run b = .ok ((), b) := by
  rw [flatten, run_get_bind, run_bind_ok (takeMerged_run hb hi hkeys _)]
  rfl

theorem putEntry_new {e : Entry} {done : List Entry} (h : ∀ d ∈ done, d.sameKey e = false) :
    putEntry e done = done ++ [e] := by
  induction done with
  | nil => rfl
  | cons d done ih =>
    rw [putEntry, h d List.mem_cons_self, if_neg (by simp),
      ih fun d' hd' => h d' (List.mem_cons_of_mem d hd')]
    rfl

/-- The values of an entry stand for its nodes. -/
def EntryStands (nodes : Array Node) (b : Build) (p : Nat × Nat) (e : Entry) : Prop :=
  b.Stands nodes p.1 e.key ∧ b.Stands nodes p.2 e.value

theorem EntryStands.mono {b' : Build} {p : Nat × Nat} {e : Entry} (h : EntryStands nodes b p e)
    (hk : b.Keeps b') : EntryStands nodes b' p e :=
  ⟨h.1.mono hk, h.2.mono hk⟩

theorem sameKey_text {d e : Entry} {s t : String} (hd : d.key = .text t) (he : e.key = .text s)
    (hne : t ≠ s) : d.sameKey e = false := by
  simp [Entry.sameKey, hd, he, Value.same, hne]

theorem keyOrigin_run (hb : b.Sound nodes) (h : IsAtom nodes i v) :
    ∃ origin, (keyOrigin i).run b = .ok (origin, b) := by
  obtain ⟨_, _, _, hi, _⟩ := h
  rw [keyOrigin, run_bind_ok (nodeAt_run hb hi)]
  exact ⟨_, rfl⟩

/-- An entry with a new key is added behind the others. -/
theorem makes_addEntry {done : List Entry} {p : Nat × Nat} {s : String} (hb : b.Sound nodes)
    (hk : Depicts nodes p.1 (.text s)) (hv : Depicts nodes p.2 v)
    (hnew : ∀ d ∈ done, ∃ t, d.key = .text t ∧ t ≠ s) :
    Makes nodes b (addEntry done p) fun new b' =>
      ∃ e, new = done ++ [e] ∧ e.key = .text s ∧ EntryStands nodes b' p e := by
  have hatom := hk.isAtom_text
  refine (makes_valueAt hb hk).bind fun key b₁ hb₁ _ hkey => ?_
  cases hkey.eq_of_isAtom hb₁ hatom
  refine (makes_valueAt hb₁ hv).bind fun value b₂ hb₂ _ hvalue => ?_
  obtain ⟨origin, horigin⟩ := keyOrigin_run hb₂ hatom
  have hput : putEntry ⟨.text s, origin, value⟩ done = done ++ [⟨.text s, origin, value⟩] := by
    refine putEntry_new fun d hd => ?_
    obtain ⟨t, ht, hne⟩ := hnew d hd
    exact sameKey_text ht rfl hne
  exact ⟨_, b₂, (run_bind_ok horigin).trans rfl, hb₂, .refl b₂, _, hput, rfl, .inl hatom, hvalue⟩

/-- The nodes of an entry: its key is a text. -/
def EntryDepicts (nodes : Array Node) (p : Nat × Nat) (e : Value × Value) : Prop :=
  (∃ s, e.1 = .text s ∧ Depicts nodes p.1 (.text s)) ∧ Depicts nodes p.2 e.2

theorem makes_entries {pairs : List (Nat × Nat)} {es : List (Value × Value)}
    (h : List.Forall₂ (EntryDepicts nodes) pairs es) {done : List Entry} (hb : b.Sound nodes)
    (hdone : ∀ d ∈ done, ∃ t, d.key = .text t)
    (hdistinct : (done.map (·.key) ++ es.map Prod.fst).Nodup) :
    Makes nodes b (pairs.foldlM addEntry done) fun new b' =>
      ∃ more, new = done ++ more ∧ List.Forall₂ (EntryStands nodes b') pairs more := by
  induction h generalizing b done with
  | nil => exact makes_pure hb ⟨[], by simp⟩
  | @cons p e pairs es hpart hparts ih =>
    obtain ⟨⟨s, hs, hk⟩, hv⟩ := hpart
    have hnew : ∀ d ∈ done, ∃ t, d.key = .text t ∧ t ≠ s := by
      intro d hd
      obtain ⟨t, ht⟩ := hdone d hd
      refine ⟨t, ht, ?_⟩
      rintro rfl
      rw [List.map_cons, List.nodup_append] at hdistinct
      exact hdistinct.2.2 d.key (List.mem_map_of_mem hd) e.1 List.mem_cons_self (ht.trans hs.symm)
    rw [List.foldlM_cons]
    refine (makes_addEntry hb hk hv hnew).bind fun new b₁ hb₁ _ hadd => ?_
    obtain ⟨entry, rfl, hkey, hentry⟩ := hadd
    have hdone' : ∀ d ∈ done ++ [entry], ∃ t, d.key = .text t := by
      intro d hd
      rcases List.mem_append.mp hd with hd | hd
      · exact hdone d hd
      · exact ⟨s, List.mem_singleton.mp hd ▸ hkey⟩
    obtain ⟨new, b₂, hrun, hb₂, hg₂, more, rfl, hmore⟩ :=
      ih hb₁ hdone' (by simpa [hkey, hs] using hdistinct)
    exact ⟨_, b₂, hrun, hb₂, hg₂, entry :: more, by simp, .cons (hentry.mono hg₂.opened) hmore⟩

theorem makes_entriesOf {tag : String} {pairs : List (Nat × Nat)} {es : List (Value × Value)}
    (hb : b.Sound nodes) (hi : nodes[i]? = some (.mapping tag pairs))
    (h : List.Forall₂ (EntryDepicts nodes) pairs es) (hdistinct : (es.map Prod.fst).Nodup) :
    Makes nodes b (entriesOf i) fun new b' => List.Forall₂ (EntryStands nodes b') pairs new := by
  have hkeys : ∀ p ∈ pairs, ∃ v, IsAtom nodes p.1 v := by
    have hboth := h.imp fun p e hp => by
      obtain ⟨⟨s, _, hk⟩, hv⟩ := hp
      exact And.intro (⟨_, hk.isAtom_text⟩ : ∃ v, IsAtom nodes p.1 v) hv
    exact ((List.forall₂_and_left _ _).mp hboth).1
  rw [entriesOf]
  refine Makes.after ?_ (nodeAt_run hb hi)
  refine Makes.after ?_ (flatten_run hb hi hkeys)
  refine Makes.after ?_ (entriesAt_run hb hi)
  have hnone : ∀ d ∈ ([] : List Entry), ∃ t, d.key = .text t := by simp
  obtain ⟨new, b', hrun, hb', hg, more, rfl, hmore⟩ := makes_entries h hb hnone hdistinct
  exact ⟨_, b', hrun, hb', hg, hmore⟩

end Contents

end Building

namespace Build

/-- A value is the frame of a node, with values or links for its parts. -/
inductive Frames (nodes : Array Node) (b : Build) (i : Nat) : Value → Prop
  | list {tag : String} {ids : List Nat} {ws : List Value} :
    nodes[i]? = some (.sequence tag ids) → List.Forall₂ (b.Stands nodes) ids ws →
    Frames nodes b i (.list ws)
  | map {tag : String} {pairs : List (Nat × Nat)} {es : List (Value × Value)} :
    nodes[i]? = some (.mapping tag pairs) →
    List.Forall₂ (fun p e => b.Stands nodes p.1 e.1 ∧ b.Stands nodes p.2 e.2) pairs es →
    Frames nodes b i (.map es)

/-- A cell has its parts. -/
def Filled (nodes : Array Node) (b : Build) (c : Nat) : Prop :=
  ∃ i w, b.opened[c]? = some (i, c) ∧ b.cells[c]? = some w ∧ b.Frames nodes i w

variable {nodes : Array Node} {b b' : Build} {i c : Nat} {v w : Value}

theorem Frames.mono (h : b.Frames nodes i w) (hk : b.Keeps b') : b'.Frames nodes i w := by
  cases h with
  | list hi hws => exact .list hi (hws.imp fun _ _ hw => hw.mono hk)
  | map hi hes => exact .map hi (hes.imp fun _ _ he => ⟨he.1.mono hk, he.2.mono hk⟩)

theorem Filled.mono (h : b.Filled nodes c) (hg : b.Grows b') : b'.Filled nodes c := by
  obtain ⟨i, w, hopened, hcell, hframes⟩ := h
  exact ⟨i, w, hg.opened c _ hopened, hg.cells c w hcell, hframes.mono hg.opened⟩

/-- A cell takes its parts. -/
def fill (b : Build) (c : Nat) (w : Value) : Build :=
  { b with cells := b.cells.set! c w }

theorem Sound.fill (h : b.Sound nodes) : (b.fill c w).Sound nodes :=
  ⟨h.nodes_eq, h.made_size, by simpa [Build.fill] using h.cells_size, h.made, h.opened⟩

theorem Filled.fill {d : Nat} (h : b.Filled nodes d) (hd : d ≠ c) :
    (b.fill c w).Filled nodes d := by
  obtain ⟨i, u, hopened, hcell, hframes⟩ := h
  refine ⟨i, u, hopened, ?_, hframes.mono fun _ _ => id⟩
  rw [Build.fill, Array.set!_eq_setIfInBounds, Array.getElem?_setIfInBounds_ne hd.symm, hcell]

theorem Sound.filled_fill (h : b.Sound nodes) (hc : b.opened[c]? = some (i, c))
    (hw : b.Frames nodes i w) : (b.fill c w).Filled nodes c := by
  have hlt : c < b.cells.size := h.cells_size ▸ (Array.getElem?_eq_some_iff.mp hc).1
  exact ⟨i, w, hc, by simp [Build.fill, hlt], hw.mono fun _ _ => id⟩

/-- There are not more cells than nodes. -/
theorem Sound.opened_size_le (h : b.Sound nodes) : b.opened.size ≤ nodes.size := by
  have hat : ∀ c : Fin b.opened.size, b.opened[c.1]? = some b.opened[c] := fun c => by simp
  have hlt : ∀ c : Fin b.opened.size, b.opened[c].1 < nodes.size := fun c => by
    obtain ⟨_, _, _, v, hv⟩ := h.opened c _ (hat c)
    exact hv.lt_size
  have hinj : Function.Injective fun c : Fin b.opened.size =>
      (⟨b.opened[c].1, hlt c⟩ : Fin nodes.size) := by
    intro c d heq
    obtain ⟨_, hc, _⟩ := h.opened c _ (hat c)
    obtain ⟨_, hd, _⟩ := h.opened d _ (hat d)
    rw [Fin.mk.inj heq] at hc
    have hlink : some (some (Value.link c)) = some (some (.link d)) := hc.symm.trans hd
    simpa [Fin.ext_iff] using hlink
  simpa using Fintype.card_le_of_injective _ hinj

end Build

namespace Building

section Filling

variable {nodes : Array Node} {b b' : Build} {i c : Nat} {v w : Value}

theorem makes_contents (hb : b.Sound nodes) (hd : Depicts nodes i v) (hframe : IsFrame nodes i) :
    ∃ node kind, nodes[i]? = some node ∧ FrameKind.ofTag? node.tag = some kind ∧
      Makes nodes b (contents kind i) fun w b' => b'.Frames nodes i w := by
  cases hd with
  | atom hid => exact absurd hid (hframe _ _)
  | @list _ ids vs hid _ hlen hvs =>
    refine ⟨_, .seq, hid, ofTag?_seq.2, Makes.after ?_ (nodeAt_run hb hid)⟩
    have hparts : List.Forall₂ (Depicts nodes) ids vs := List.forall₂_iff_zip.mpr ⟨hlen, @hvs⟩
    exact (makes_items hparts hb).bind fun ws b' hb' _ hws => makes_pure hb' (.list hid hws)
  | @map _ pairs es hid _ hkeyed hlen hks hvs =>
    have hparts : List.Forall₂ (EntryDepicts nodes) pairs es := by
      refine List.forall₂_iff_zip.mpr ⟨hlen, fun {p e} hm => ⟨?_, hvs p e hm⟩⟩
      obtain ⟨s, hs, _⟩ := hkeyed.texts e (List.of_mem_zip hm).2
      exact ⟨s, hs, hs ▸ hks p e hm⟩
    refine ⟨_, .map, hid, ofTag?_map.2, ?_⟩
    refine (makes_entriesOf hb hid hparts hkeyed.distinct).bind fun new b' hb' _ hnew => ?_
    exact makes_pure hb' (.map hid (List.forall₂_map_right_iff.mpr hnew))

/-- All cells are filled, those that are opened on the way too. -/
theorem fillCells_run (n : Nat) {index : Nat} (hb : b.Sound nodes) (hindex : index ≤ b.opened.size)
    (hfilled : ∀ c < index, b.Filled nodes c) (hn : nodes.size < n + index) :
    ∃ b', (fillCells n index).run b = .ok ((), b') ∧ b'.Sound nodes ∧ b.Keeps b' ∧
      ∀ c < b'.opened.size, b'.Filled nodes c := by
  induction n generalizing b index with
  | zero =>
    have hle := hb.opened_size_le
    omega
  | succ n ih =>
    rw [fillCells, run_get_bind]
    cases hc : b.opened[index]? with
    | none =>
      have hge : b.opened.size ≤ index := Array.getElem?_eq_none_iff.mp hc
      exact ⟨b, rfl, hb, fun _ _ => id, fun c hlt => hfilled c (by omega)⟩
    | some p =>
      obtain ⟨hcell, _, hframe, v, hv⟩ := hb.opened index p hc
      obtain ⟨i, c⟩ := p
      obtain rfl : c = index := hcell
      obtain ⟨node, kind, hi, hkind, w, b₁, hrun, hb₁, hg, hw⟩ := makes_contents hb hv hframe
      have hopened : b₁.opened[c]? = some (i, c) := hg.opened c _ hc
      have htag : (tagAt i).run b = .ok (node.tag, b) := by
        rw [tagAt, run_bind_ok (nodeAt_run hb hi)]
        rfl
      have hfilled₁ : ∀ d < c + 1, (b₁.fill c w).Filled nodes d := by
        intro d hlt
        by_cases heq : d = c
        · subst heq
          exact hb₁.filled_fill hopened hw
        · exact ((hfilled d (by omega)).mono hg).fill heq
      have hlt : c < b₁.opened.size := (Array.getElem?_eq_some_iff.mp hopened).1
      obtain ⟨b', hrest, hb', hkeeps, hfilled'⟩ := ih hb₁.fill hlt hfilled₁ (by omega)
      refine ⟨b', ?_, hb', fun d p hp => hkeeps d p (hg.opened d p hp), hfilled'⟩
      dsimp only
      rw [run_bind_ok htag, hkind]
      exact (run_bind_ok hrun).trans hrest

end Filling

end Building

section Expansion

variable {nodes : Array Node} {b : Build} {i c : Nat} {v w : Value}

theorem mapLinksItems_eq (f : Nat → Value) (vs : List Value) :
    Value.mapLinksItems f vs = vs.map (·.mapLinks f) := by
  induction vs with
  | nil => rfl
  | cons v vs ih => rw [Value.mapLinksItems, ih, List.map_cons]

theorem mapLinksEntries_eq (f : Nat → Value) (es : List (Value × Value)) :
    Value.mapLinksEntries f es = es.map fun e => (e.1.mapLinks f, e.2.mapLinks f) := by
  induction es with
  | nil => rfl
  | cons e es ih => rw [Value.mapLinksEntries, ih, List.map_cons]

/-- How many cells there are for a node and those behind it. -/
def Build.cellsFrom (b : Build) (i : Nat) : Nat :=
  b.opened.toList.countP fun p => decide (i ≤ p.1)

theorem cellsFrom_lt {j : Nat} (hc : b.opened[c]? = some (i, c)) (hj : i < j) :
    b.cellsFrom j < b.cellsFrom i := by
  have hmem : (i, c) ∈ b.opened.toList := Array.mem_toList_iff.mpr (Array.mem_of_getElem? hc)
  obtain ⟨before, after, heq⟩ := List.append_of_mem hmem
  have hmono : ∀ ps : List (Nat × Nat), ps.countP (fun p => decide (j ≤ p.1)) ≤
      ps.countP fun p => decide (i ≤ p.1) := by
    refine fun ps => List.countP_mono_left fun p _ hp => ?_
    have hle : j ≤ p.1 := of_decide_eq_true hp
    exact decide_eq_true (by omega)
  have hbefore := hmono before
  have hafter := hmono after
  simp only [Build.cellsFrom, heq, List.countP_append, List.countP_cons, Nat.not_le.mpr hj,
    decide_false, Bool.false_eq_true, if_false, Nat.le_refl, decide_true, if_true]
  omega

/-- The link to a list or a map is expanded into its parts. -/
theorem Build.Stands.expand (hw : b.Stands nodes i w) (hframe : IsFrame nodes i)
    (hfilled : ∀ c < b.opened.size, b.Filled nodes c) {n : Nat} (hn : b.cellsFrom i ≤ n) :
    ∃ u m, b.Frames nodes i u ∧ (∀ j, i < j → b.cellsFrom j ≤ m) ∧
      w.mapLinks (Yaml.expand b.cells (fun _ => none) n) =
        u.mapLinks (Yaml.expand b.cells (fun _ => none) m) := by
  rcases hw with hatom | ⟨c, rfl, hc⟩
  · exact absurd hframe hatom.not_isFrame
  obtain ⟨i', u, hc', hcell, hu⟩ := hfilled c (Array.getElem?_eq_some_iff.mp hc).1
  cases hc.symm.trans hc'
  have hless := cellsFrom_lt hc (Nat.lt_succ_self i)
  obtain ⟨m, rfl⟩ : ∃ m, n = m + 1 := ⟨n - 1, by omega⟩
  refine ⟨u, m, hu, fun j hj => ?_, ?_⟩
  · have hless := cellsFrom_lt hc hj
    omega
  · rw [Value.mapLinks, Yaml.expand, hcell]
    rfl

theorem map_eq_of_forall₂ {α β γ : Type} {R : α → β → Prop} {as : List α} {bs : List β}
    {cs : List γ} {f : β → γ} (h : List.Forall₂ R as bs) (hlen : as.length = cs.length)
    (hf : ∀ a c, (a, c) ∈ as.zip cs → ∀ b, R a b → f b = c) : bs.map f = cs := by
  induction h generalizing cs with
  | nil => simpa using hlen.symm
  | cons hr _ ih =>
    cases cs with
    | nil => cases hlen
    | cons c cs =>
      rw [List.map_cons, hf _ c List.mem_cons_self _ hr,
        ih (by simpa using hlen) fun a c hm => hf a c (List.mem_cons_of_mem _ hm)]

/-- Once all cells are filled, what stands for a node can be expanded into its value. -/
theorem Depicts.expand_eq (hd : Depicts nodes i v) (hb : b.Sound nodes)
    (hfilled : ∀ c < b.opened.size, b.Filled nodes c) {n : Nat} (hw : b.Stands nodes i w)
    (hn : b.cellsFrom i ≤ n) : w.mapLinks (expand b.cells (fun _ => none) n) = v := by
  induction hd generalizing w n with
  | atom hid hm =>
    obtain ⟨kind, hkind, htime, hv⟩ := hm
    have hatom : IsAtom nodes _ _ := ⟨_, _, kind, hid, hkind, htime, hv⟩
    rw [hw.eq_of_isAtom hb hatom, hatom.mapLinks]
  | list hid hlt hlen hvs ih =>
    have hframe : IsFrame nodes _ := fun tag text heq => by cases hid.symm.trans heq
    obtain ⟨u, m, hu, hm, heq⟩ := hw.expand hframe hfilled hn
    rw [heq]
    cases hu with
    | map hid' => cases hid.symm.trans hid'
    | list hid' hws =>
      cases hid.symm.trans hid'
      rw [Value.mapLinks, mapLinksItems_eq]
      refine congrArg Value.list (map_eq_of_forall₂ hws hlen fun j v hmem w hw => ?_)
      exact ih j v hmem hw (hm j (hlt j (List.of_mem_zip hmem).1))
  | map hid hlt hkeyed hlen hks hvs ihk ihv =>
    have hframe : IsFrame nodes _ := fun tag text heq => by cases hid.symm.trans heq
    obtain ⟨u, m, hu, hm, heq⟩ := hw.expand hframe hfilled hn
    rw [heq]
    cases hu with
    | list hid' => cases hid.symm.trans hid'
    | map hid' hes =>
      cases hid.symm.trans hid'
      rw [Value.mapLinks, mapLinksEntries_eq]
      refine congrArg Value.map (map_eq_of_forall₂ hes hlen fun p e hmem d hd => ?_)
      have hp := hlt p (List.of_mem_zip hmem).1
      rw [ihk p e hmem hd.1 (hm _ hp.1), ihv p e hmem hd.2 (hm _ hp.2)]

/-- A document without loops has the value that its outermost node stands for. -/
theorem Graph.value_eq {g : Graph} (hd : Depicts g.nodes g.root v) (hg : g.looped = false) :
    g.value = .ok v := by
  have hstart : ({ nodes := g.nodes, made := Array.replicate g.nodes.size none } : Build).Sound
      g.nodes := by
    refine ⟨rfl, by simp, rfl, fun i w hw => ?_, fun c p hc => ?_⟩
    · simp [Array.getElem?_replicate] at hw
    · cases hc
  obtain ⟨w, b, hrun, hb, hgrows, hw⟩ := Building.makes_valueAt hstart hd
  obtain ⟨b', hfill, hb', hkeeps, hfilled⟩ := Building.fillCells_run (g.nodes.size + 1) hb
    (Nat.zero_le _) (fun c hc => absurd hc (Nat.not_lt_zero c)) (Nat.lt_succ_self _)
  have hbuild : (do
      let v ← Building.valueAt g.root
      Building.fillCells (g.nodes.size + 1) 0
      return v : Building Value).run
        { nodes := g.nodes, made := Array.replicate g.nodes.size none } = .ok (w, b') := by
    rw [run_bind_ok hrun, run_bind_ok hfill]
    rfl
  have hsettled : settled b'.cells false w = v := by
    have hcount : b'.cellsFrom g.root ≤ b'.cells.size + 1 := by
      have hle := List.countP_le_length (p := fun p => decide (g.root ≤ p.1))
        (l := b'.opened.toList)
      rw [hb'.cells_size, Build.cellsFrom]
      rw [Array.length_toList] at hle
      omega
    have hexpand := hd.expand_eq hb' hfilled (hw.mono hkeeps) hcount
    exact hexpand
  rw [Graph.value, hbuild, hg]
  exact congrArg Except.ok hsettled

theorem load_eq {text : List Char} {g : Graph} (h : parse text = .ok (some g))
    (hd : Depicts g.nodes g.root v) (hg : g.looped = false) : load text = .ok v := by
  rw [load, h]
  exact g.value_eq hd hg

/-- What is written is read back. -/
theorem load_render {n : Nat} {es : List (Value × Value)} (h : Storable (n + 1) (.map es))
    (hne : es ≠ []) (hn : 2 * n + 2 ≤ Page.width) :
    load (render (.map es)).toList = .ok (.map es) := by
  obtain ⟨out, ts, _, hlaid, hrender⟩ := h.exists_render hne hn
  have hdeep : n < Parse.maxDepth := by
    have hwidth : Page.width < Parse.maxDepth := by decide
    omega
  obtain ⟨g, hparse, hloop, hdepicts⟩ := hlaid.parse_eq h hdeep
  rw [hrender]
  exact load_eq hparse hdepicts hloop

end Expansion

end Yaml

end NPlusOne
