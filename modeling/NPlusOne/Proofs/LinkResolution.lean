import NPlusOne.Proofs.FileWalk
import NPlusOne.Proofs.TaskRun

namespace NPlusOne

namespace FileTree

variable {t : FileTree}

/-- The text stands for the names, if no link is on the way. -/
def Denotes (t : FileTree) (path : String) (names : List String) : Prop :=
  ∃ k parts, k ≤ 1 ∧ Path.Spelt path k parts ∧ t.namesOf k parts = names

namespace Denotes

variable {path piece : String} {names names' : List String}

theorem unique (h : t.Denotes path names) (h' : t.Denotes path names') : names = names' := by
  obtain ⟨k, parts, _, hs, rfl⟩ := h
  obtain ⟨k', parts', _, hs', rfl⟩ := h'
  rw [← hs.rootSlashes, ← hs'.rootSlashes, ← hs.components, ← hs'.components]

theorem root : t.Denotes "/" [] :=
  ⟨1, [], by omega, spelt_root, rfl⟩

theorem join (h : t.Denotes path names) (hp : Path.IsName piece) :
    t.Denotes (Path.join path piece) (names ++ [piece]) := by
  obtain ⟨k, parts, hk, hs, rfl⟩ := h
  exact ⟨k, parts ++ [piece], hk, hs.join hp, namesFrom_name _ _ hp⟩

theorem stepUp (h : t.Denotes path names) (hn : ∀ name ∈ names, Path.IsName name) :
    t.Denotes (FileTree.stepUp path) names.dropLast := by
  obtain ⟨k, parts, hk, hs, rfl⟩ := h
  refine ⟨k, _, hk, hs.stepUp, ?_⟩
  have hup := namesFrom_up hn
  obtain rfl | ⟨front, piece, rfl⟩ := List.eq_nil_or_concat' parts
  · cases k with
    | zero => exact hup
    | succ k => simp [namesOf, namesFrom, origin, Path.pushPiece]
  · by_cases hpiece : piece = ".."
    · subst hpiece
      simpa [namesOf, Path.pushPiece] using hup
    · have hmem : piece ∈ front ++ [piece] := by simp
      have hname : Path.IsName piece :=
        ⟨(hs.mem piece hmem).1, hs.kept.ne_here (List.mem_reverse.mpr hmem), hpiece,
          (hs.mem piece hmem).2⟩
      have hfront : (Path.pushPiece (0 < k) (front ++ [piece]).reverse "..").reverse = front := by
        simp [Path.pushPiece, hpiece]
      rw [hfront, namesOf, namesOf, namesFrom_name _ _ hname, List.dropLast_concat]

theorem absolute (h : t.Denotes path names) (hcwd : ∀ name ∈ t.cwd, Path.IsName name) :
    t.absolute path = pathText names := by
  obtain ⟨k, parts, hk, hs, rfl⟩ := h
  exact absolute_eq hcwd hk hs

theorem origin (hcwd : t.Placed t.cwd .directory) (k : Nat) :
    t.Placed (t.origin k) .directory := by
  unfold FileTree.origin
  split
  · exact hcwd
  · exact hcwd.root

/-- A name is asked for in the directory that the text stands for. -/
theorem linkAt?_join (h : t.Denotes path names) (hcwd : t.Placed t.cwd .directory)
    (hd : t.Placed names .directory) (hp : Path.IsName piece) (hf : nameFits piece = true)
    (hsize : (Path.join path piece).utf8ByteSize < 4096) :
    t.linkAt? (Path.join path piece) = (t.entry? (names ++ [piece])).bind Entry.target? := by
  obtain ⟨k, parts, _, hs, rfl⟩ := h
  exact linkAt?_eq (hs.join hp) hsize hp hf (origin hcwd k) hd

end Denotes

theorem size_of_linkAt? {path target : String} (h : t.linkAt? path = some target) :
    path.utf8ByteSize < 4096 := by
  unfold linkAt? locate at h
  by_contra hsize
  rw [if_pos (by omega : 4096 ≤ path.utf8ByteSize)] at h
  split at h
  next _ _ heq => split at heq <;> cases heq
  next => cases h

/-- A resolution that runs into no loop of links and asks for no path that is too long: the pieces
of a path are worked off behind `path`, and what is met on the way is kept. -/
inductive Traces (t : FileTree) :
    SeenLinks → String → List String → String → SeenLinks → Prop
  | done (seen : SeenLinks) (path : String) : Traces t seen path [] path seen
  | stay {seen seen' : SeenLinks} {path piece real : String} {rest : List String} :
    piece = "" ∨ piece = "." → Traces t seen path rest real seen' →
    Traces t seen path (piece :: rest) real seen'
  | up {seen seen' : SeenLinks} {path real : String} {rest : List String} :
    Traces t seen (stepUp path) rest real seen' → Traces t seen path (".." :: rest) real seen'
  | name {seen seen' : SeenLinks} {path piece real : String} {rest : List String} :
    Path.IsName piece → (Path.join path piece).utf8ByteSize < 4096 →
    t.linkAt? (Path.join path piece) = none → Traces t seen (Path.join path piece) rest real seen' →
    Traces t seen path (piece :: rest) real seen'
  | known {seen seen' : SeenLinks} {path piece target mid real : String} {rest : List String} :
    Path.IsName piece → t.linkAt? (Path.join path piece) = some target →
    seen.lookup (Path.join path piece) = some (some mid) → Traces t seen mid rest real seen' →
    Traces t seen path (piece :: rest) real seen'
  | follow {seen between seen' : SeenLinks} {path piece target mid real : String}
      {rest : List String} :
    Path.IsName piece → t.linkAt? (Path.join path piece) = some target →
    seen.lookup (Path.join path piece) = none →
    Traces t ((Path.join path piece, none) :: seen) (if Path.isAbsolute target then "/" else path)
      (Path.pieces target) mid between →
    Traces t ((Path.join path piece, some mid) :: between) mid rest real seen' →
    Traces t seen path (piece :: rest) real seen'

section Step

variable {follow : SeenLinks → String → String → Except Failure RealPath} {seen : SeenLinks}
  {path piece : String} {rest : List String} {r : RealPath}

/-- A name that is not that of a link is kept. -/
theorem realPieces_direct (hp : Path.IsName piece) (hlink : t.linkAt? (Path.join path piece) = none)
    (h : t.realPieces follow seen path (piece :: rest) = .ok r) :
    t.realPieces follow seen (Path.join path piece) rest = .ok r := by
  rw [realPieces, if_neg (by simp [hp.nonempty, hp.notHere]), if_neg hp.notUp] at h
  dsimp only at h
  rw [hlink] at h
  split at h
  next => cases h
  next => exact h
  next hnone => cases hnone

/-- A link was resolved before, is being followed, or is followed now. -/
theorem realPieces_linked {target : String} (hp : Path.IsName piece)
    (hlink : t.linkAt? (Path.join path piece) = some target)
    (h : t.realPieces follow seen path (piece :: rest) = .ok r) :
    (∃ real, seen.lookup (Path.join path piece) = some (some real) ∧
        t.realPieces follow seen real rest = .ok r) ∨
      seen.lookup (Path.join path piece) = some none ∧ r.complete = false ∨
      seen.lookup (Path.join path piece) = none ∧ ∃ real,
        follow ((Path.join path piece, none) :: seen) path target = .ok real ∧
        if real.complete then
          t.realPieces follow ((Path.join path piece, some real.path) :: real.seen) real.path rest =
            .ok r
        else r.complete = false := by
  rw [realPieces, if_neg (by simp [hp.nonempty, hp.notHere]), if_neg hp.notUp] at h
  dsimp only at h
  rw [hlink] at h
  split at h
  next => cases h
  next hnone => cases hnone
  next heq =>
    cases heq
    split at h
    next real hseen => exact .inl ⟨real, hseen, h⟩
    next hseen =>
      cases h
      exact .inr (.inl ⟨hseen, rfl⟩)
    next hseen =>
      obtain ⟨real, hreal, h⟩ := except_bind_eq_ok.mp h
      refine .inr (.inr ⟨hseen, real, hreal, ?_⟩)
      split at h
      next hcomplete => rwa [if_pos hcomplete]
      next hcomplete =>
        cases h
        rw [if_neg hcomplete]
        exact Bool.not_eq_true _ ▸ hcomplete

end Step

namespace Traces

variable {seen seen' : SeenLinks} {path real : String} {pieces : List String}

/-- A resolution that gives a result gives this one. -/
theorem eq_of_realPieces (h : t.Traces seen path pieces real seen') (depth : Nat) {r : RealPath}
    (hr : t.realPieces (t.realFrom depth) seen path pieces = .ok r) : r = ⟨real, true, seen'⟩ := by
  induction h generalizing depth r with
  | done =>
    rw [realPieces] at hr
    cases hr
    rfl
  | stay hp _ ih =>
    rw [realPieces, if_pos (by simpa using hp)] at hr
    exact ih depth hr
  | up _ ih =>
    rw [realPieces, if_neg (by decide), if_pos rfl] at hr
    exact ih depth hr
  | name hp _ hlink _ ih => exact ih depth (realPieces_direct hp hlink hr)
  | known hp hlink hseen _ ih =>
    obtain ⟨real, hreal, hgo⟩ | ⟨hnone, _⟩ | ⟨hnone, _⟩ := realPieces_linked hp hlink hr
    · cases hseen.symm.trans hreal
      exact ih depth hgo
    · cases hseen.symm.trans hnone
    · cases hseen.symm.trans hnone
  | follow hp hlink hseen _ _ ihTarget ih =>
    obtain ⟨real, hreal, _⟩ | ⟨hloop, _⟩ | ⟨_, real, htarget, hgo⟩ := realPieces_linked hp hlink hr
    · cases hseen.symm.trans hreal
    · cases hseen.symm.trans hloop
    · -- The target is resolved one link deeper; the rest goes on at the depth of the link.
      cases depth with
      | zero => cases htarget
      | succ depth =>
        cases ihTarget depth htarget
        exact ih (depth + 1) hgo

end Traces

/-- Every name in the text was asked for and is not that of a link. -/
inductive Clear (t : FileTree) : String → List String → Prop
  | root : Clear t "/" []
  | ups {path : String} {n : Nat} : Path.Spelt path 0 (List.replicate n "..") →
    Clear t path (t.namesOf 0 (List.replicate n ".."))
  | name {path piece : String} {names : List String} : Clear t path names → Path.IsName piece →
    (Path.join path piece).utf8ByteSize < 4096 → t.linkAt? (Path.join path piece) = none →
    Clear t (Path.join path piece) (names ++ [piece])

namespace Clear

variable {path : String} {names names' : List String}

theorem here : t.Clear "" t.cwd := by
  have h : t.Clear "" (t.namesOf 0 (List.replicate 0 "..")) := .ups ⟨by omega, rfl, .nil⟩
  rwa [List.replicate_zero, namesOf, namesFrom_nil] at h

theorem denotes (h : t.Clear path names) : t.Denotes path names := by
  induction h with
  | root => exact .root
  | ups hs => exact ⟨0, _, by omega, hs, rfl⟩
  | name _ hp _ _ ih => exact ih.join hp

theorem stepUp_join {path piece : String} {k : Nat} {parts : List String}
    (h : Path.Spelt path k parts) (hp : Path.IsName piece) :
    stepUp (Path.join path piece) = path := by
  rw [← String.toList_inj, (h.join hp).stepUp.text, h.text]
  simp [Path.pushPiece, hp.notUp]

theorem stepUp (h : t.Clear path names) (hcwd : t.Placed t.cwd .directory) :
    t.Clear (FileTree.stepUp path) names.dropLast := by
  cases h with
  | root =>
    have hroot : FileTree.stepUp "/" = "/" := by decide
    rw [hroot]
    exact .root
  | @ups _ n hs =>
    have hplaced := hcwd.ups n
    have hup := namesFrom_up fun name hm => (hplaced.fits name hm).1
    have hspelt := hs.stepUp
    have hparts : (Path.pushPiece (0 < 0) (List.replicate n "..").reverse "..").reverse =
        List.replicate (n + 1) ".." := by
      cases n with
      | zero => rfl
      | succ n =>
        have hpush : Path.pushPiece false (".." :: List.replicate n "..") ".." =
            List.replicate (n + 2) ".." := by
          simp [Path.pushPiece, List.replicate_succ]
        rw [List.reverse_replicate, List.replicate_succ]
        exact (congrArg List.reverse hpush).trans List.reverse_replicate
    rw [hparts] at hspelt
    rw [← List.replicate_succ'] at hup
    have hclear : t.Clear _ (t.namesOf 0 (List.replicate (n + 1) "..")) := .ups hspelt
    rwa [namesOf, origin, if_pos rfl, hup] at hclear
  | name h hp =>
    obtain ⟨k, parts, _, hs, _⟩ := h.denotes
    rwa [stepUp_join hs hp, List.dropLast_concat]

theorem isName (h : t.Clear path names) (hcwd : t.Placed t.cwd .directory) :
    ∀ name ∈ names, Path.IsName name := by
  induction h with
  | root => simp
  | @ups _ n hs =>
    have hplaced := hcwd.ups n
    exact fun name hm => (hplaced.fits name hm).1
  | name _ hp _ _ ih =>
    intro name hm
    rcases List.mem_append.mp hm with hm | hm
    · exact ih name hm
    · rwa [List.mem_singleton.mp hm]

theorem size (h : t.Clear path names) (ha : Path.isAbsolute path = true) :
    path.utf8ByteSize < 4096 := by
  cases h with
  | root => decide
  | ups hs =>
    rw [hs.isAbsolute] at ha
    cases ha
  | name _ _ hsize => exact hsize

/-- From the root, the names that a clear text stands for lead to their own entry. -/
theorem eq_of_goes (h : t.Clear path names) (hcwd : t.Placed t.cwd .directory)
    (hg : t.Goes [] names names') : names' = names ∧ ∃ e, t.Placed names e := by
  induction h generalizing names' with
  | root => exact ⟨Goes.nil_iff.mp hg, .directory, hcwd.root⟩
  | @ups _ n hs =>
    have hplaced := hcwd.ups n
    have hgoes : t.Goes [] _ _ := hplaced.goes
    exact ⟨hg.unique hgoes, .directory, hplaced⟩
  | @name path piece names h hp hsize hlink ih =>
    obtain ⟨mid, hfront, hlast⟩ := hg.split
    obtain ⟨rfl, e, hplaced⟩ := ih hfront
    obtain ⟨hd, hf, e', he', hgo⟩ := (Goes.name_iff hp).mp hlast
    cases hplaced.entry.symm.trans hd
    rcases hgo with ⟨hn, hgo⟩ | ⟨target, rfl, _⟩
    · exact ⟨Goes.nil_iff.mp hgo, e', hplaced.enter hp hf he' hn⟩
    · rw [h.denotes.linkAt?_join hcwd hplaced hp hf hsize, he'] at hlink
      cases hlink

end Clear

namespace Traces

variable {seen seen' : SeenLinks} {path real : String} {pieces names : List String}

/-- What every step of a resolution keeps holds of its result. -/
theorem keeps {P : String → Prop} (hroot : P "/") (hup : ∀ {path}, P path → P (stepUp path))
    (hname : ∀ {path piece}, P path → Path.IsName piece →
      (Path.join path piece).utf8ByteSize < 4096 → t.linkAt? (Path.join path piece) = none →
      P (Path.join path piece))
    (h : t.Traces seen path pieces real seen') (hp : P path)
    (hs : ∀ next mid, seen.lookup next = some (some mid) → P mid) :
    P real ∧ ∀ next mid, seen'.lookup next = some (some mid) → P mid := by
  have henter : ∀ {seen : SeenLinks} {key : String} {result : Option String},
      (∀ next mid, seen.lookup next = some (some mid) → P mid) →
      (∀ mid, result = some mid → P mid) →
      ∀ next mid, List.lookup next ((key, result) :: seen) = some (some mid) → P mid := by
    intro seen key result hs hr next mid hlookup
    rw [List.lookup_cons] at hlookup
    split at hlookup
    next => exact hr mid (Option.some.inj hlookup)
    next => exact hs next mid hlookup
  induction h with
  | done => exact ⟨hp, hs⟩
  | stay _ _ ih => exact ih hp hs
  | up _ ih => exact ih (hup hp) hs
  | name hn hsize hlink _ ih => exact ih (hname hp hn hsize hlink) hs
  | known _ _ hseen _ ih => exact ih (hs _ _ hseen) hs
  | @follow _ _ _ path piece target mid _ _ _ _ _ _ _ ihTarget ih =>
    have hstart : P (if Path.isAbsolute target then "/" else path) := by
      split
      · exact hroot
      · exact hp
    obtain ⟨hmid, hbetween⟩ := ihTarget hstart (henter hs fun _ h => by cases h)
    exact ih hmid (henter hbetween fun _ h => by cases h; exact hmid)

theorem clear (hcwd : t.Placed t.cwd .directory) (h : t.Traces [] path pieces real seen')
    (hp : ∃ names, t.Clear path names) : ∃ names, t.Clear real names :=
  (keeps (P := fun path => ∃ names, t.Clear path names) ⟨[], .root⟩
    (fun ⟨_, hc⟩ => ⟨_, hc.stepUp hcwd⟩)
    (fun ⟨_, hc⟩ hn hsize hlink => ⟨_, .name hc hn hsize hlink⟩) h hp (by simp)).1

/-- From the root a resolution never comes back to the working directory. -/
theorem normal (h : t.Traces [] "/" pieces real seen') :
    Path.isAbsolute real = true ∧ Path.Normal real := by
  obtain ⟨⟨parts, hs⟩, _⟩ := keeps (P := fun path => ∃ parts, Path.Spelt path 1 parts)
    ⟨[], spelt_root⟩ (fun ⟨_, hs⟩ => ⟨_, hs.stepUp⟩) (fun ⟨_, hs⟩ hn _ _ => ⟨_, hs.join hn⟩) h
    ⟨[], spelt_root⟩ (by simp)
  exact ⟨by simpa using hs.isAbsolute,
    hs.normal fun hempty => by simpa using hs.eq_empty.mp hempty⟩

/-- The results that are kept for links are what the links lead to. -/
def AllMeant (t : FileTree) (seen : SeenLinks) : Prop :=
  ∀ next mid, seen.lookup next = some (some mid) → ∀ here piece target names,
    t.Denotes next (here ++ [piece]) → t.entry? (here ++ [piece]) = some (.link target) →
    t.Goes (linkStart here target) (Path.pieces target) names → t.Denotes mid names

theorem denotes_linkStart {here : List String} (h : t.Denotes path here) (target : String) :
    t.Denotes (if Path.isAbsolute target then "/" else path) (linkStart here target) := by
  unfold linkStart
  split
  · exact .root
  · exact h

theorem placed_linkStart {here : List String} (h : t.Placed here .directory) (target : String) :
    t.Placed (linkStart here target) .directory := by
  unfold linkStart
  split
  · exact h.root
  · exact h

/-- A walk over a name that was found to be that of a link goes on at its target. -/
theorem goes_target {here rest : List String} {piece target : String} (hd : t.Denotes path here)
    (hcwd : t.Placed t.cwd .directory) (hh : t.Placed here .directory) (hp : Path.IsName piece)
    (hlink : t.linkAt? (Path.join path piece) = some target)
    (hg : t.Goes here (piece :: rest) names) :
    t.entry? (here ++ [piece]) = some (.link target) ∧
      ∃ mid, t.Goes (linkStart here target) (Path.pieces target) mid ∧ t.Goes mid rest names := by
  obtain ⟨_, hf, e, he, hgo⟩ := (Goes.name_iff hp).mp hg
  rw [hd.linkAt?_join hcwd hh hp hf (size_of_linkAt? hlink), he, Option.bind_some] at hlink
  rcases hgo with ⟨hn, _⟩ | ⟨target', rfl, hgo⟩
  · cases e with
    | link other => exact absurd rfl (hn other)
    | directory | file => cases hlink
  · cases hlink
    exact ⟨he, hgo.split⟩

/-- Where the pieces of a path can be walked, the resolution comes to the same entry. -/
theorem denotes (h : t.Traces seen path pieces real seen') (hcwd : t.Placed t.cwd .directory)
    {here : List String} {e : Entry} (hd : t.Denotes path here) (hh : t.Placed here e)
    (hs : AllMeant t seen) (hg : t.Goes here pieces names) :
    t.Denotes real names ∧ AllMeant t seen' := by
  induction h generalizing here names e with
  | done =>
    rw [Goes.nil_iff.mp hg]
    exact ⟨hd, hs⟩
  | stay hp _ ih => exact ih hd hh hs ((Goes.stay_iff hp).mp hg).2
  | up _ ih =>
    obtain ⟨hdir, hg⟩ := Goes.up_iff.mp hg
    cases hh.entry.symm.trans hdir
    exact ih (hd.stepUp fun name hm => (hh.fits name hm).1) hh.up hs hg
  | name hp hsize hlink _ ih =>
    obtain ⟨hdir, hf, e', he', hgo⟩ := (Goes.name_iff hp).mp hg
    cases hh.entry.symm.trans hdir
    rcases hgo with ⟨hn, hgo⟩ | ⟨target, rfl, _⟩
    · exact ih (hd.join hp) (hh.enter hp hf he' hn) hs hgo
    · rw [hd.linkAt?_join hcwd hh hp hf hsize, he'] at hlink
      cases hlink
  | known hp hlink hseen _ ih =>
    cases hh.entry.symm.trans ((Goes.name_iff hp).mp hg).1
    obtain ⟨he, mid, hmid, hrest⟩ := goes_target hd hcwd hh hp hlink hg
    obtain ⟨e', hplaced⟩ := hmid.placed (placed_linkStart hh _)
    exact ih (hs _ _ hseen _ _ _ _ (hd.join hp) he hmid) hplaced hs hrest
  | @follow seen between _ path piece target real _ _ hp hlink _ _ _ ihTarget ih =>
    cases hh.entry.symm.trans ((Goes.name_iff hp).mp hg).1
    obtain ⟨he, mid, hmid, hrest⟩ := goes_target hd hcwd hh hp hlink hg
    obtain ⟨e', hplaced⟩ := hmid.placed (placed_linkStart hh target)
    have hopen : AllMeant t ((Path.join path piece, none) :: seen) := by
      intro key found hlookup
      rw [List.lookup_cons] at hlookup
      split at hlookup
      next => cases hlookup
      next => exact hs key found hlookup
    obtain ⟨hreal, hbetween⟩ := ihTarget (denotes_linkStart hd target)
      (placed_linkStart hh target) hopen hmid
    refine ih hreal hplaced ?_ hrest
    intro key found hlookup
    rw [List.lookup_cons] at hlookup
    split at hlookup
    next hkey =>
      cases hlookup
      intro here' piece' target' names' hkept he' hgo
      rw [beq_iff_eq.mp hkey] at hkept
      have hsame := (hd.join hp).unique hkept
      rw [← hsame, he] at he'
      cases he'
      obtain ⟨rfl, _⟩ := List.append_inj' hsame rfl
      rwa [hgo.unique hmid]
    next => exact hbetween key found hlookup

end Traces

theorem checkPath_eq_ok {p : String} : checkPath p = .ok () ↔ isAskable p = true := by
  unfold checkPath isAskable
  cases Text.isFileName p <;> cases hasNull p <;> simp

section Questions

variable {test : Entry → Bool} {p : String}

theorem asks_eq_true : t.asks test p = .ok true ↔
    isAskable p = true ∧ ∃ names e, t.look p = .ok (names, e) ∧ test e = true := by
  unfold asks
  cases hask : isAskable p with
  | false => simp
  | true =>
    cases hlook : t.look p with
    | ok found => obtain ⟨names, e⟩ := found; simp
    | error e => cases e <;> simp [meansAbsent]

theorem asks_returns (ha : isAskable p = true) :
    (∃ b, t.asks test p = .ok b) ↔ t.look p ≠ .error .nameTooLong := by
  unfold asks
  cases hlook : t.look p with
  | ok found => simp [ha]
  | error e => cases e <;> simp [ha, meansAbsent]

theorem isDirectory_eq_true : t.isDirectory p = .ok true ↔
    isAskable p = true ∧ ∃ names, t.look p = .ok (names, .directory) := by
  simp [isDirectory, asks_eq_true]

theorem isPresent_eq_true : t.isPresent p = .ok true ↔
    isAskable p = true ∧ ∃ found, t.look p = .ok found := by
  simp [isPresent, asks_eq_true]

end Questions

section Resolve

variable {q p : String} {names : List String} {e : Entry}

theorem resolve_eq_ok (h : t.resolve q = .ok p) :
    isAskable p = true ∧ ∃ r, t.realFrom maxNesting [] "" (Path.tidy q) = .ok r ∧
      p = t.absolute r.path := by
  obtain ⟨r, hreal, h⟩ := except_bind_eq_ok.mp h
  obtain ⟨_, hcheck, h⟩ := except_bind_eq_ok.mp h
  split at h
  next => cases h
  next =>
    obtain rfl : t.absolute r.path = p := Except.ok.inj h
    exact ⟨checkPath_eq_ok.mp hcheck, r, hreal, rfl⟩

/-- Why a path cannot be resolved. -/
inductive Unresolved : Failure → Prop
  | null : Unresolved .nullInPath
  | encoding : Unresolved .notEncodable
  | depth : Unresolved .tooDeep
  | loop (quoted : String) : Unresolved (.linkLoop quoted)

theorem checkPath_error {e : Failure} (h : checkPath p = .error e) : Unresolved e := by
  unfold checkPath at h
  split at h
  next =>
    cases h
    exact .encoding
  next =>
    split at h
    next =>
      cases h
      exact .null
    next => cases h

theorem realPieces_error {follow : SeenLinks → String → String → Except Failure RealPath}
    (hfollow : ∀ seen path target e, follow seen path target = .error e → Unresolved e)
    {seen : SeenLinks} {path : String} {pieces : List String} {e : Failure}
    (h : t.realPieces follow seen path pieces = .error e) : Unresolved e := by
  induction pieces generalizing seen path with
  | nil => cases h
  | cons piece rest ih =>
    rw [realPieces] at h
    split at h
    next => exact ih h
    next =>
      split at h
      next => exact ih h
      next =>
        dsimp only at h
        split at h
        next hcheck =>
          cases h
          exact checkPath_error hcheck
        next => exact ih h
        next target _ _ =>
          split at h
          next => exact ih h
          next => cases h
          next =>
            cases htarget : follow ((Path.join path piece, none) :: seen) path target with
            | error e' =>
              rw [htarget] at h
              cases h
              exact hfollow _ _ _ _ htarget
            | ok mid =>
              rw [htarget] at h
              change (if mid.complete then _ else _) = _ at h
              split at h
              next => exact ih h
              next => cases h

theorem realFrom_error {depth : Nat} {seen : SeenLinks} {path rest : String} {e : Failure}
    (h : t.realFrom depth seen path rest = .error e) : Unresolved e := by
  induction depth generalizing seen path rest e with
  | zero =>
    cases h
    exact .depth
  | succ depth ih => exact realPieces_error (fun _ _ _ _ h => ih h) h

theorem resolve_error {e : Failure} (h : t.resolve q = .error e) : Unresolved e := by
  obtain hreal | ⟨r, _, h⟩ := except_bind_eq_error.mp h
  · exact realFrom_error hreal
  · obtain hcheck | ⟨_, _, h⟩ := except_bind_eq_error.mp h
    · exact checkPath_error hcheck
    · split at h
      next =>
        cases h
        exact .loop _
      next => cases h

theorem normal_resolve (h : t.resolve q = .ok p) :
    Path.Normal p ∧ Path.isAbsolute p = true := by
  obtain ⟨_, r, _, rfl⟩ := resolve_eq_ok h
  exact ⟨t.normal_absolute _, t.isAbsolute_absolute _⟩

theorem goes_pathText {ns : List String} (hn : ∀ name ∈ ns, Path.IsName name)
    (h : t.Goes (if Path.isAbsolute (pathText ns) then [] else t.cwd)
      (Path.pieces (pathText ns)) names) : t.Goes [] ns names := by
  have hs := spelt_pathText hn
  rw [hs.isAbsolute, if_pos (by decide), hs.pieces] at h
  obtain ⟨_, h⟩ := (Goes.stay_iff (.inl rfl)).mp h
  change t.Goes [] (if ns = [] then [""] else ns) names at h
  split at h
  next hnil =>
    rw [hnil]
    exact ((Goes.stay_iff (.inl rfl)).mp h).2
  next => exact h

/-- Nothing hinders the resolution of the path: it runs into no loop of links and asks for no path
that is too long. -/
def Unhindered (t : FileTree) (q : String) : Prop :=
  ∃ real seen, t.Traces [] (if Path.isAbsolute (Path.tidy q) then "/" else "")
    (Path.pieces (Path.tidy q)) real seen

theorem Traces.resolve {real : String} {seen : SeenLinks}
    (h : t.Traces [] (if Path.isAbsolute (Path.tidy q) then "/" else "")
      (Path.pieces (Path.tidy q)) real seen) (hr : t.resolve q = .ok p) :
    p = t.absolute real := by
  obtain ⟨_, r, hreal, rfl⟩ := resolve_eq_ok hr
  cases h.eq_of_realPieces 999 hreal
  rfl

/-- What an unhindered resolution comes to lies behind directories only. -/
theorem Unhindered.placed (h : t.Unhindered q) (hcwd : t.Placed t.cwd .directory)
    (hr : t.resolve q = .ok p) (hl : t.look p = .ok (names, e)) :
    p = pathText names ∧ t.Placed names e := by
  obtain ⟨real, seen, htraces⟩ := h
  have hstart : ∃ names, t.Clear (if Path.isAbsolute (Path.tidy q) then "/" else "") names := by
    split
    · exact ⟨_, .root⟩
    · exact ⟨_, .here⟩
  obtain ⟨ns, hclear⟩ := htraces.clear hcwd hstart
  have hp : p = pathText ns := by
    rw [htraces.resolve hr, hclear.denotes.absolute fun name hm => (hcwd.fits name hm).1]
  subst hp
  have hgoes := goes_pathText (hclear.isName hcwd) (goes_of_look hl).2.2
  obtain ⟨rfl, e', hplaced⟩ := hclear.eq_of_goes hcwd hgoes
  cases hplaced.entry.symm.trans (goes_of_look hl).2.1
  exact ⟨rfl, hplaced⟩

/-- A directory that an unhindered resolution starts from is the one it comes to. -/
theorem Unhindered.isDirectory (h : t.Unhindered q) (hcwd : t.Placed t.cwd .directory)
    (htidy : Path.tidy q = q) (ha : Path.isAbsolute q = true) (hr : t.resolve q = .ok p)
    (hq : t.isDirectory q = .ok true) : t.isDirectory p = .ok true := by
  obtain ⟨_, names, hlook⟩ := isDirectory_eq_true.mp hq
  obtain ⟨_, he, hgoes⟩ := goes_of_look hlook
  obtain ⟨real, seen, htraces⟩ := h
  have hp := htraces.resolve hr
  rw [htidy, ha] at htraces
  rw [ha] at hgoes
  obtain ⟨hdenotes, _⟩ := htraces.denotes hcwd .root hcwd.root (by simp [Traces.AllMeant]) hgoes
  obtain ⟨ns, hclear⟩ := htraces.clear hcwd ⟨[], .root⟩
  obtain rfl := hdenotes.unique hclear.denotes
  have hreal := htraces.normal
  obtain ⟨e, hplaced⟩ := hgoes.placed hcwd.root
  cases hplaced.entry.symm.trans he
  have hname := hclear.isName hcwd
  have hspelt := spelt_pathText hname
  have hnames : t.namesOf 1 names = names := namesFrom_names [] hname
  have htext : p = pathText names := by
    rw [hp, hdenotes.absolute fun name hm => (hcwd.fits name hm).1]
  have hsame : real = pathText names := by
    rw [← htext, hp, t.absolute_of_normal hreal.1 hreal.2]
  have hlook' := look_placed (t := t) hspelt (by simp [pathText])
    (hsame ▸ hclear.size hreal.1) hcwd.root (hnames.symm ▸ hplaced)
  refine isDirectory_eq_true.mpr ⟨(resolve_eq_ok hr).1, names, ?_⟩
  rw [htext, hlook', hnames]

end Resolve

end FileTree

end NPlusOne
