import NPlusOne.Proofs.PathSpelling

namespace NPlusOne

/-- The target of a link. -/
def Entry.target? : Entry → Option String
  | .link target => some target
  | _ => none

namespace FileTree

variable {t : FileTree}

/-- An entry of the tree behind directories only. -/
structure Placed (t : FileTree) (names : List String) (e : Entry) : Prop where
  entry : t.entry? names = some e
  direct : ∀ target, e ≠ .link target
  above : ∀ ms, ms <+: names → ms ≠ names → t.entry? ms = some .directory
  fits : ∀ name ∈ names, Path.IsName name ∧ nameFits name = true

namespace Placed

variable {names here : List String} {e : Entry} {piece : String}

theorem of_prefix (h : t.Placed names e) {ms : List String} (hp : ms <+: names) (hne : ms ≠ names) :
    t.Placed ms .directory where
  entry := h.above ms hp hne
  direct := by simp
  above ls hl hls := by
    refine h.above ls (hl.trans hp) ?_
    rintro rfl
    exact hls (hl.eq_of_length_le hp.length_le)
  fits name hm := h.fits name (hp.subset hm)

theorem enter (h : t.Placed here .directory) (hp : Path.IsName piece) (hf : nameFits piece = true)
    (he : t.entry? (here ++ [piece]) = some e) (hd : ∀ target, e ≠ .link target) :
    t.Placed (here ++ [piece]) e where
  entry := he
  direct := hd
  above ms hm hne := by
    rcases List.prefix_concat_iff.mp hm with rfl | hm
    · exact absurd rfl hne
    · by_cases heq : ms = here
      · rw [heq, h.entry]
      · exact h.above ms hm heq
  fits name hm := by
    rcases List.mem_append.mp hm with hm | hm
    · exact h.fits name hm
    · rw [List.mem_singleton.mp hm]
      exact ⟨hp, hf⟩

theorem up (h : t.Placed here .directory) : t.Placed here.dropLast .directory := by
  by_cases heq : here.dropLast = here
  · rwa [heq]
  · exact h.of_prefix (List.dropLast_prefix here) heq

theorem ups (h : t.Placed here .directory) (n : Nat) :
    t.Placed (namesFrom here (List.replicate n "..")) .directory := by
  induction n with
  | zero => rwa [List.replicate_zero, namesFrom_nil]
  | succ n ih =>
    rw [List.replicate_succ', namesFrom_up fun name hm => (ih.fits name hm).1]
    exact ih.up

theorem root (h : t.Placed here .directory) : t.Placed [] .directory := by
  by_cases heq : [] = here
  · rwa [heq]
  · exact h.of_prefix List.nil_prefix heq

end Placed

/-- Where the target of a link is looked for that was met in a directory. -/
def linkStart (here : List String) (target : String) : List String :=
  if Path.isAbsolute target then [] else here

/-- The pieces of a path lead from one entry to another, over any number of links. -/
inductive Goes (t : FileTree) : List String → List String → List String → Prop
  | done (here : List String) : Goes t here [] here
  | stay {here rest names : List String} {piece : String} : t.entry? here = some .directory →
    piece = "" ∨ piece = "." → Goes t here rest names → Goes t here (piece :: rest) names
  | up {here rest names : List String} : t.entry? here = some .directory →
    Goes t here.dropLast rest names → Goes t here (".." :: rest) names
  | enter {here rest names : List String} {piece : String} {e : Entry} :
    t.entry? here = some .directory → Path.IsName piece → nameFits piece = true →
    t.entry? (here ++ [piece]) = some e → (∀ target, e ≠ .link target) →
    Goes t (here ++ [piece]) rest names → Goes t here (piece :: rest) names
  | follow {here rest names : List String} {piece target : String} :
    t.entry? here = some .directory → Path.IsName piece → nameFits piece = true →
    t.entry? (here ++ [piece]) = some (.link target) →
    Goes t (linkStart here target) (Path.pieces target ++ rest) names →
    Goes t here (piece :: rest) names

namespace Goes

variable {here names names' : List String} {pieces rest : List String} {piece : String}

theorem nil_iff : t.Goes here [] names ↔ names = here :=
  ⟨fun h => by cases h; rfl, fun h => h ▸ .done names⟩

theorem stay_iff (hp : piece = "" ∨ piece = ".") :
    t.Goes here (piece :: rest) names ↔
      t.entry? here = some .directory ∧ t.Goes here rest names := by
  have hname : ¬ Path.IsName piece := by
    rintro ⟨hempty, hdot, _⟩
    exact hp.elim hempty hdot
  constructor
  · intro h
    cases h with
    | stay hd _ h => exact ⟨hd, h⟩
    | up => simp at hp
    | enter _ hn => exact absurd hn hname
    | follow _ hn => exact absurd hn hname
  · exact fun h => .stay h.1 hp h.2

theorem up_iff : t.Goes here (".." :: rest) names ↔
    t.entry? here = some .directory ∧ t.Goes here.dropLast rest names := by
  constructor
  · intro h
    cases h with
    | stay _ hp => simp at hp
    | up hd h => exact ⟨hd, h⟩
    | enter _ hn => exact absurd rfl hn.notUp
    | follow _ hn => exact absurd rfl hn.notUp
  · exact fun h => .up h.1 h.2

/-- A name leads to its entry or, if it is that of a link, on to the target. -/
theorem name_iff (hp : Path.IsName piece) :
    t.Goes here (piece :: rest) names ↔
      t.entry? here = some .directory ∧ nameFits piece = true ∧ ∃ e,
        t.entry? (here ++ [piece]) = some e ∧
        ((∀ target, e ≠ .link target) ∧ t.Goes (here ++ [piece]) rest names ∨
          ∃ target, e = .link target ∧
            t.Goes (linkStart here target) (Path.pieces target ++ rest) names) := by
  constructor
  · intro h
    cases h with
    | stay _ hs => exact absurd hs (by simp [hp.nonempty, hp.notHere])
    | up => exact absurd rfl hp.notUp
    | enter hd _ hf he hn h => exact ⟨hd, hf, _, he, .inl ⟨hn, h⟩⟩
    | follow hd _ hf he h => exact ⟨hd, hf, _, he, .inr ⟨_, rfl, h⟩⟩
  · rintro ⟨hd, hf, e, he, ⟨hn, h⟩ | ⟨target, rfl, h⟩⟩
    · exact .enter hd hp hf he hn h
    · exact .follow hd hp hf he h

theorem unique (h : t.Goes here pieces names) (h' : t.Goes here pieces names') :
    names = names' := by
  induction h with
  | done here => exact (nil_iff.mp h').symm
  | stay _ hp _ ih => exact ih ((stay_iff hp).mp h').2
  | up _ _ ih => exact ih (up_iff.mp h').2
  | enter _ hp _ he hn _ ih =>
    obtain ⟨_, _, e, he', ⟨_, h'⟩ | ⟨target, rfl, _⟩⟩ := (name_iff hp).mp h'
    · exact ih h'
    · cases he.symm.trans he'
      exact absurd rfl (hn target)
  | follow _ hp _ he _ ih =>
    obtain ⟨_, _, e, he', ⟨hn, _⟩ | ⟨target, rfl, h'⟩⟩ := (name_iff hp).mp h'
    · cases he.symm.trans he'
      exact absurd rfl (hn _)
    · cases he.symm.trans he'
      exact ih h'

/-- A path can be worked off in two parts. -/
theorem split {xs ys : List String} (h : t.Goes here (xs ++ ys) names) :
    ∃ mid, t.Goes here xs mid ∧ t.Goes mid ys names := by
  generalize hpieces : xs ++ ys = pieces at h
  induction h generalizing xs with
  | done here =>
    obtain ⟨rfl, rfl⟩ := List.append_eq_nil_iff.mp hpieces
    exact ⟨here, .done here, .done here⟩
  | stay hd hp h ih =>
    obtain ⟨rfl, rfl⟩ | ⟨xs, rfl, rfl⟩ := List.append_eq_cons_iff.mp hpieces
    · exact ⟨_, .done _, .stay hd hp h⟩
    · obtain ⟨mid, hx, hy⟩ := ih rfl
      exact ⟨mid, .stay hd hp hx, hy⟩
  | up hd h ih =>
    obtain ⟨rfl, rfl⟩ | ⟨xs, rfl, rfl⟩ := List.append_eq_cons_iff.mp hpieces
    · exact ⟨_, .done _, .up hd h⟩
    · obtain ⟨mid, hx, hy⟩ := ih rfl
      exact ⟨mid, .up hd hx, hy⟩
  | enter hd hp hf he hn h ih =>
    obtain ⟨rfl, rfl⟩ | ⟨xs, rfl, rfl⟩ := List.append_eq_cons_iff.mp hpieces
    · exact ⟨_, .done _, .enter hd hp hf he hn h⟩
    · obtain ⟨mid, hx, hy⟩ := ih rfl
      exact ⟨mid, .enter hd hp hf he hn hx, hy⟩
  | follow hd hp hf he h ih =>
    obtain ⟨rfl, rfl⟩ | ⟨xs, rfl, rfl⟩ := List.append_eq_cons_iff.mp hpieces
    · exact ⟨_, .done _, .follow hd hp hf he h⟩
    · obtain ⟨mid, hx, hy⟩ := ih (List.append_assoc _ _ _)
      exact ⟨mid, .follow hd hp hf he hx, hy⟩

/-- From a directory, a walk ends at an entry that is no link. -/
theorem placed (h : t.Goes here pieces names) {e : Entry} (hh : t.Placed here e) :
    ∃ e, t.Placed names e := by
  induction h generalizing e with
  | done => exact ⟨e, hh⟩
  | stay _ _ _ ih => exact ih hh
  | up hd _ ih =>
    cases hh.entry.symm.trans hd
    exact ih hh.up
  | enter hd hp hf he hn _ ih =>
    cases hh.entry.symm.trans hd
    exact ih (hh.enter hp hf he hn)
  | @follow here rest names piece target hd hp hf he _ ih =>
    cases hh.entry.symm.trans hd
    refine ih (e := .directory) ?_
    unfold linkStart
    split
    · exact hh.root
    · exact hh

end Goes

/-- Names of directories lead to the entry behind them. -/
theorem Placed.goes {here ms : List String} {e : Entry} (h : t.Placed (here ++ ms) e) :
    t.Goes here ms (here ++ ms) := by
  induction ms generalizing here with
  | nil => rw [List.append_nil]; exact .done here
  | cons piece ms ih =>
    have hsplit : here ++ piece :: ms = here ++ [piece] ++ ms := by simp
    have hd : t.Placed here .directory := h.of_prefix (List.prefix_append _ _) (by simp)
    obtain ⟨hp, hf⟩ := h.fits piece (by simp)
    rw [hsplit] at h ⊢
    obtain ⟨e', he', hn⟩ : ∃ e, t.entry? (here ++ [piece]) = some e ∧
        ∀ target, e ≠ .link target := by
      cases ms with
      | nil => exact ⟨e, by simpa using h.entry, h.direct⟩
      | cons other ms =>
        exact ⟨.directory, h.above _ (List.prefix_append _ _) (by simp), by simp⟩
    exact .enter hd.entry hp hf he' hn (ih h)

section Walk

variable {here names pieces rest : List String} {e : Entry} {piece : String} {ending : Ending}
  {follow : List String → List String → Except PathError Spot}

theorem isDirectoryEntry_iff :
    t.isDirectoryEntry here = true ↔ t.entry? here = some .directory := by
  simp [isDirectoryEntry]

theorem walkPieces_nil (he : t.entry? here = some e) :
    t.walkPieces ending follow here [] = .ok (.taken here e) := by
  rw [walkPieces, he]

theorem walkPieces_stay (hd : t.entry? here = some .directory) (hp : piece = "" ∨ piece = ".")
    (rest : List String) : t.walkPieces ending follow here (piece :: rest) =
      t.walkPieces ending follow here rest := by
  rw [walkPieces, isDirectoryEntry_iff.mpr hd]
  simp [hp]

theorem walkPieces_up (hd : t.entry? here = some .directory) (rest : List String) :
    t.walkPieces ending follow here (".." :: rest) =
      t.walkPieces ending follow here.dropLast rest := by
  rw [walkPieces, isDirectoryEntry_iff.mpr hd]
  simp

/-- A walk goes over a name, unless the name is to be made and only slashes stand behind it. -/
def Ending.Admits (ending : Ending) (rest : List String) : Prop :=
  ending = .making → rest ≠ [] → ∃ piece ∈ rest, piece ≠ ""

theorem Ending.admits_of_ne (h : ending ≠ .making) : ending.Admits rest :=
  fun heq => absurd heq h

theorem Ending.admits_iff :
    ending.Admits rest ↔ ¬(ending = .making && !rest.isEmpty && rest.all (· = "")) = true := by
  simp [Admits]

theorem walkPieces_free (hd : t.entry? here = some .directory) (hp : Path.IsName piece)
    (hf : nameFits piece = true) (he : t.entry? (here ++ [piece]) = none) :
    t.walkPieces ending follow here [piece] = .ok (.free (here ++ [piece])) := by
  rw [walkPieces, isDirectoryEntry_iff.mpr hd, he]
  simp [hp.nonempty, hp.notHere, hp.notUp, hf]

theorem walkPieces_enter (ha : ending.Admits rest) (hd : t.entry? here = some .directory)
    (hp : Path.IsName piece) (hf : nameFits piece = true)
    (he : t.entry? (here ++ [piece]) = some e) (hn : ∀ target, e ≠ .link target) :
    t.walkPieces ending follow here (piece :: rest) =
      t.walkPieces ending follow (here ++ [piece]) rest := by
  rw [walkPieces, isDirectoryEntry_iff.mpr hd, he]
  simp only [hp.nonempty, hp.notHere, hp.notUp, hf, Ending.admits_iff.mp ha]
  cases e with
  | link target => exact absurd rfl (hn target)
  | directory | file => simp

theorem walkPieces_link {target : String} (hend : ending ≠ .entry) (ha : ending.Admits rest)
    (hd : t.entry? here = some .directory) (hp : Path.IsName piece) (hf : nameFits piece = true)
    (he : t.entry? (here ++ [piece]) = some (.link target)) :
    t.walkPieces ending follow here (piece :: rest) =
      follow (linkStart here target) (Path.pieces target ++ rest) := by
  rw [walkPieces, isDirectoryEntry_iff.mpr hd, he]
  simp only [hp.nonempty, hp.notHere, hp.notUp, hf, Ending.admits_iff.mp ha]
  simp [hend, linkStart]

/-- What a walk over all links can do with its next piece. -/
theorem walkPieces_cons_eq_ok {spot : Spot} (hend : ending ≠ .entry) (hslash : '/' ∉ piece.toList)
    (h : t.walkPieces ending follow here (piece :: rest) = .ok spot) :
    t.entry? here = some .directory ∧
      ((piece = "" ∨ piece = ".") ∧ t.walkPieces ending follow here rest = .ok spot ∨
        piece = ".." ∧ t.walkPieces ending follow here.dropLast rest = .ok spot ∨
        Path.IsName piece ∧ nameFits piece = true ∧ ending.Admits rest ∧
          (rest = [] ∧ spot = .free (here ++ [piece]) ∧ t.entry? (here ++ [piece]) = none ∨
            (∃ e, t.entry? (here ++ [piece]) = some e ∧ (∀ target, e ≠ .link target) ∧
              t.walkPieces ending follow (here ++ [piece]) rest = .ok spot) ∨
            ∃ target, t.entry? (here ++ [piece]) = some (.link target) ∧
              follow (linkStart here target) (Path.pieces target ++ rest) = .ok spot)) := by
  rw [walkPieces] at h
  split at h
  next => split at h <;> cases h
  next hdir =>
    refine ⟨isDirectoryEntry_iff.mp (by simpa using hdir), ?_⟩
    split at h
    next hstay => exact .inl ⟨by simpa using hstay, h⟩
    next hstay =>
      split at h
      next hup => exact .inr (.inl ⟨hup, h⟩)
      next hup =>
        simp only [Bool.or_eq_true, decide_eq_true_eq, not_or] at hstay
        have hname : Path.IsName piece := ⟨hstay.1, hstay.2, hup, hslash⟩
        split at h
        next => cases h
        next hfits =>
          split at h
          next => cases h
          next hclear =>
            refine .inr (.inr ⟨hname, by simpa using hfits, Ending.admits_iff.mpr hclear, ?_⟩)
            split at h
            next he =>
              split at h
              next hempty =>
                cases h
                exact .inl ⟨List.isEmpty_iff.mp hempty, rfl, he⟩
              next => cases h
            next target he =>
              rw [if_neg (by simp [hend])] at h
              exact .inr (.inr ⟨target, he, h⟩)
            next e hlink he => exact .inr (.inl ⟨e, he, fun target heq => hlink target heq, h⟩)

/-- What a walk can do with its next piece. -/
inductive Takes (t : FileTree) (follow : List String → List String → Except PathError Spot)
    (here : List String) (spot : Spot) : String → List String → Prop
  | stay {piece : String} {rest : List String} : piece = "" ∨ piece = "." →
    t.walkPieces .target follow here rest = .ok spot → Takes t follow here spot piece rest
  | up {rest : List String} : t.walkPieces .target follow here.dropLast rest = .ok spot →
    Takes t follow here spot ".." rest
  | free {piece : String} {rest : List String} : rest = [] → spot = .free (here ++ [piece]) →
    Path.IsName piece → nameFits piece = true → t.entry? (here ++ [piece]) = none →
    Takes t follow here spot piece rest
  | enter {piece : String} {rest : List String} {e : Entry} : Path.IsName piece →
    nameFits piece = true → t.entry? (here ++ [piece]) = some e → (∀ target, e ≠ .link target) →
    t.walkPieces .target follow (here ++ [piece]) rest = .ok spot →
    Takes t follow here spot piece rest
  | link {piece target : String} {rest : List String} : Path.IsName piece →
    nameFits piece = true → t.entry? (here ++ [piece]) = some (.link target) →
    follow (linkStart here target) (Path.pieces target ++ rest) = .ok spot →
    Takes t follow here spot piece rest

theorem takes_of_walkPieces {spot : Spot} (hslash : '/' ∉ piece.toList)
    (h : t.walkPieces .target follow here (piece :: rest) = .ok spot) :
    t.entry? here = some .directory ∧ t.Takes follow here spot piece rest := by
  obtain ⟨hd, hstep⟩ := walkPieces_cons_eq_ok (by simp) hslash h
  refine ⟨hd, ?_⟩
  rcases hstep with ⟨hstay, hgo⟩ | ⟨rfl, hgo⟩ | ⟨hname, hf, -, hentry⟩
  · exact .stay hstay hgo
  · exact .up hgo
  · rcases hentry with ⟨hnil, hspot, he⟩ | ⟨e, he, hn, hgo⟩ | ⟨target, he, hgo⟩
    · exact .free hnil hspot hname hf he
    · exact .enter hname hf he hn hgo
    · exact .link hname hf he hgo

theorem not_slash_behind_link (target : String) (hp : ∀ piece ∈ pieces, '/' ∉ piece.toList) :
    ∀ piece ∈ Path.pieces target ++ pieces, '/' ∉ piece.toList :=
  List.forall_mem_append.mpr ⟨fun _ hm => Path.not_slash_of_mem_pieces hm, hp⟩

theorem goes_of_walkPieces (hp : ∀ piece ∈ pieces, '/' ∉ piece.toList)
    (hfollow : ∀ start ps names e, (∀ piece ∈ ps, '/' ∉ piece.toList) →
      follow start ps = .ok (.taken names e) → t.Goes start ps names ∧ t.entry? names = some e)
    (h : t.walkPieces .target follow here pieces = .ok (.taken names e)) :
    t.Goes here pieces names ∧ t.entry? names = some e := by
  induction pieces generalizing here with
  | nil =>
    rw [walkPieces] at h
    split at h
    next e' he =>
      cases h
      exact ⟨.done _, he⟩
    next => cases h
  | cons piece rest ih =>
    have hrest : ∀ piece ∈ rest, '/' ∉ piece.toList := fun other hm => hp other (by simp [hm])
    obtain ⟨hd, htakes⟩ := takes_of_walkPieces (hp piece (by simp)) h
    cases htakes with
    | stay hstay h => exact (ih hrest h).imp_left (.stay hd hstay)
    | up h => exact (ih hrest h).imp_left (.up hd)
    | free _ hspot => cases hspot
    | enter hname hf he hn h => exact (ih hrest h).imp_left (.enter hd hname hf he hn)
    | link hname hf he h =>
      exact (hfollow _ _ _ _ (not_slash_behind_link _ hrest) h).imp_left (.follow hd hname hf he)

theorem goes_of_walk {links : Nat} (hp : ∀ piece ∈ pieces, '/' ∉ piece.toList)
    (h : t.walk .target links here pieces = .ok (.taken names e)) :
    t.Goes here pieces names ∧ t.entry? names = some e := by
  induction links generalizing here pieces names e with
  | zero => exact goes_of_walkPieces hp (fun _ _ _ _ _ h => by cases h) h
  | succ links ih => exact goes_of_walkPieces hp (fun _ _ _ _ hps h => ih hps h) h

theorem walkPieces_ups (hs : t.Placed here .directory) (n : Nat) (rest : List String) :
    t.walkPieces ending follow here (List.replicate n ".." ++ rest) =
      t.walkPieces ending follow (namesFrom here (List.replicate n "..")) rest := by
  induction n generalizing rest with
  | zero => rw [List.replicate_zero, namesFrom_nil, List.nil_append]
  | succ n ih =>
    have hd := hs.ups n
    rw [List.replicate_succ', namesFrom_up fun name hm => (hd.fits name hm).1, List.append_assoc,
      ih, List.singleton_append, walkPieces_up hd.entry]

/-- Over names and steps up the walk goes to the place that the text stands for. -/
theorem walkPieces_append {parts : List String} {rooted : Bool} (hend : ending ≠ .making)
    (hk : Path.Kept rooted parts.reverse) (hs : t.Placed here .directory)
    (hp : t.Placed (namesFrom here parts) e) (rest : List String) :
    t.walkPieces ending follow here (parts ++ rest) =
      t.walkPieces ending follow (namesFrom here parts) rest := by
  generalize hkept : parts.reverse = kept at hk
  induction hk generalizing parts rest e with
  | nil =>
    obtain rfl := List.reverse_eq_nil_iff.mp hkept
    rw [namesFrom_nil, List.nil_append]
  | up n =>
    obtain rfl : parts = List.replicate (n + 1) ".." := by
      rw [← List.reverse_reverse parts, hkept, List.reverse_replicate]
    exact walkPieces_ups hs (n + 1) rest
  | @name piece kept hempty hdot hup hslash _ ih =>
    obtain rfl : parts = kept.reverse ++ [piece] := by
      rw [← List.reverse_reverse parts, hkept, List.reverse_cons]
    have hname : Path.IsName piece := ⟨hempty, hdot, hup, hslash⟩
    rw [namesFrom_name _ _ hname] at hp ⊢
    have hd : t.Placed (namesFrom here kept.reverse) .directory :=
      hp.of_prefix (List.prefix_append _ _) (by simp)
    rw [List.append_assoc, ih hd _ (List.reverse_reverse kept), List.singleton_append]
    exact walkPieces_enter (Ending.admits_of_ne hend) hd.entry hname (hp.fits piece (by simp)).2
      hp.entry hp.direct

/-- Slashes at the front of a path change nothing. -/
theorem walkPieces_slashes (hd : t.entry? here = some .directory) (n : Nat) (rest : List String) :
    t.walkPieces ending follow here (List.replicate n "" ++ rest) =
      t.walkPieces ending follow here rest := by
  induction n with
  | zero => rfl
  | succ n ih => rw [List.replicate_succ, List.cons_append, walkPieces_stay hd (.inl rfl), ih]

theorem walk_eq (t : FileTree) (ending : Ending) (links : Nat) :
    ∃ follow, t.walk ending links = t.walkPieces ending follow := by
  cases links with
  | zero => exact ⟨_, rfl⟩
  | succ links => exact ⟨_, rfl⟩

/-- If a path can be walked, so can its front, and it leads to a directory. -/
theorem exists_walkPieces_front {xs ys : List String} {spot : Spot}
    (hp : ∀ piece ∈ xs ++ ys, '/' ∉ piece.toList) (hne : ys ≠ [])
    (hfollow : ∀ start ps spot, (∀ piece ∈ ps ++ ys, '/' ∉ piece.toList) →
      follow start (ps ++ ys) = .ok spot →
      ∃ names, follow start ps = .ok (.taken names .directory))
    (h : t.walkPieces .target follow here (xs ++ ys) = .ok spot) :
    ∃ names, t.walkPieces .target follow here xs = .ok (.taken names .directory) := by
  induction xs generalizing here with
  | nil =>
    obtain ⟨y, ys, rfl⟩ := List.exists_cons_of_ne_nil hne
    exact ⟨here, walkPieces_nil (takes_of_walkPieces (hp y (by simp)) h).1⟩
  | cons x xs ih =>
    have hrest : ∀ piece ∈ xs ++ ys, '/' ∉ piece.toList :=
      fun other hm => hp other (List.mem_cons_of_mem x hm)
    obtain ⟨hd, htakes⟩ := takes_of_walkPieces (hp x (by simp)) h
    cases htakes with
    | stay hstay h =>
      rw [walkPieces_stay hd hstay]
      exact ih hrest h
    | up h =>
      rw [walkPieces_up hd]
      exact ih hrest h
    | free hnil => exact absurd (List.append_eq_nil_iff.mp hnil).2 hne
    | enter hname hf he hn h =>
      rw [walkPieces_enter (Ending.admits_of_ne (by simp)) hd hname hf he hn]
      exact ih hrest h
    | @link _ target _ hname hf he h =>
      rw [walkPieces_link (by simp) (Ending.admits_of_ne (by simp)) hd hname hf he]
      have hslash := not_slash_behind_link target hrest
      rw [← List.append_assoc] at hslash
      exact hfollow _ _ spot hslash ((List.append_assoc _ _ _).symm ▸ h)

theorem exists_walk_front {links : Nat} {xs ys : List String} {spot : Spot}
    (hp : ∀ piece ∈ xs ++ ys, '/' ∉ piece.toList) (hne : ys ≠ [])
    (h : t.walk .target links here (xs ++ ys) = .ok spot) :
    ∃ names, t.walk .target links here xs = .ok (.taken names .directory) := by
  induction links generalizing here xs spot with
  | zero => exact exists_walkPieces_front hp hne (fun _ _ _ _ h => by cases h) h
  | succ links ih => exact exists_walkPieces_front hp hne (fun _ _ _ hps h => ih hps h) h

end Walk

section Text

variable {path : String} {k : Nat} {parts : List String} {e : Entry}

theorem locate_eq {ending : Ending} (h : Path.Spelt path k parts) (hne : path ≠ "")
    (hsize : path.utf8ByteSize < 4096) :
    t.locate ending path =
      t.walk ending maxLinks (t.origin k) (Path.pieces path) := by
  rw [locate, if_neg hne, if_neg (by omega), h.isAbsolute]
  cases k <;> simp [origin]

theorem walk_spelt {ending : Ending} {front : List String} (hend : ending ≠ .making)
    (hk : Path.Kept (0 < k) front.reverse) (hs : t.Placed (t.origin k) .directory)
    (hp : t.Placed (t.namesOf k front) e) (links : Nat) (rest : List String) :
    t.walk ending links (t.origin k) (List.replicate k "" ++ (front ++ rest)) =
      t.walk ending links (t.namesOf k front) rest := by
  obtain ⟨follow, hwalk⟩ := t.walk_eq ending links
  rw [hwalk, walkPieces_slashes hs.entry, walkPieces_append hend hk hs hp]
  rfl

/-- A name is asked for in the directory that the text before it stands for. -/
theorem linkAt?_eq {piece : String} (h : Path.Spelt path k (parts ++ [piece]))
    (hsize : path.utf8ByteSize < 4096) (hp : Path.IsName piece) (hf : nameFits piece = true)
    (hs : t.Placed (t.origin k) .directory)
    (hd : t.Placed (t.namesOf k parts) .directory) :
    t.linkAt? path = (t.entry? (t.namesOf k parts ++ [piece])).bind Entry.target? := by
  have hne : path ≠ "" := fun hempty => by simpa using (h.eq_empty.mp hempty).2
  have hkept : Path.Kept (0 < k) parts.reverse := by simpa using h.kept.tail
  rw [linkAt?, locate_eq h hne hsize, h.pieces, if_neg (by simp),
    walk_spelt Ending.noConfusion hkept hs hd]
  obtain ⟨follow, hwalk⟩ := t.walk_eq .entry maxLinks
  rw [hwalk, walkPieces, isDirectoryEntry_iff.mpr hd.entry]
  simp only [hp.nonempty, hp.notHere, hp.notUp, hf]
  cases he : t.entry? (t.namesOf k parts ++ [piece]) with
  | none => simp
  | some e => cases e <;> simp [walkPieces, he, Entry.target?]

theorem look_eq_ok {p : String} {names : List String} :
    t.look p = .ok (names, e) ↔ t.locate .target p = .ok (.taken names e) := by
  unfold look
  split <;> simp_all

/-- Behind directories only, a text leads to the names that it stands for. -/
theorem look_placed (h : Path.Spelt path k parts) (hne : path ≠ "")
    (hsize : path.utf8ByteSize < 4096) (hs : t.Placed (t.origin k) .directory)
    (hp : t.Placed (t.namesOf k parts) e) : t.look path = .ok (t.namesOf k parts, e) := by
  obtain ⟨follow, hwalk⟩ := t.walk_eq .target maxLinks
  rw [look_eq_ok, locate_eq h hne hsize, h.pieces]
  split
  next hnil =>
    subst hnil
    have hd : t.entry? (t.namesOf k []) = some .directory := by
      rw [namesOf, namesFrom_nil]
      exact hs.entry
    rw [← List.nil_append [""], walk_spelt Ending.noConfusion .nil hs hp, hwalk,
      walkPieces_stay hd (.inl rfl), walkPieces_nil hp.entry]
  next =>
    have hend : Ending.target ≠ .making := Ending.noConfusion
    have hparts := walk_spelt hend h.kept hs hp maxLinks []
    rw [List.append_nil] at hparts
    rw [hparts, hwalk, walkPieces_nil hp.entry]

theorem goes_of_look {p : String} {names : List String} (h : t.look p = .ok (names, e)) :
    p.utf8ByteSize < 4096 ∧ t.entry? names = some e ∧
      t.Goes (if Path.isAbsolute p then [] else t.cwd) (Path.pieces p) names := by
  rw [look_eq_ok, locate] at h
  split at h
  next => cases h
  next =>
    split at h
    next => cases h
    next hsize =>
      obtain ⟨hgoes, he⟩ := goes_of_walk (fun _ hm => Path.not_slash_of_mem_pieces hm) h
      exact ⟨by omega, he, hgoes⟩

/-- The directory of a path is written at its beginning. -/
theorem exists_parent_append (h : Path.Spelt path k parts) (hk : 0 < k) :
    ∃ rest, path = Path.parent path ++ rest := by
  have hparent := (h.parent hk).text
  obtain rfl | ⟨front, piece, rfl⟩ := List.eq_nil_or_concat' parts
  · refine ⟨"", ?_⟩
    rw [String.append_empty, ← String.toList_inj, hparent, h.text]
    rfl
  · rw [List.dropLast_concat] at hparent
    refine ⟨String.ofList ((if front = [] then [] else ['/']) ++ piece.toList), ?_⟩
    rw [← String.toList_inj, h.text, Path.spelled_append_singleton, String.toList_append, hparent]
    simp

theorem size_parent_le (h : Path.Spelt path k parts) (hk : 0 < k) :
    (Path.parent path).utf8ByteSize ≤ path.utf8ByteSize := by
  obtain ⟨rest, hrest⟩ := exists_parent_append h hk
  have hsize := congrArg String.utf8ByteSize hrest
  rw [String.utf8ByteSize_append] at hsize
  omega

/-- What is there lies in a directory. -/
theorem exists_look_parent (h : Path.Spelt path k parts) (hk : 0 < k)
    {found : List String × Entry} (hl : t.look path = .ok found) :
    ∃ names, t.look (Path.parent path) = .ok (names, .directory) := by
  obtain ⟨names, e⟩ := found
  have hparent := h.parent hk
  have hne : path ≠ "" := fun hempty => by
    have hzero := (h.eq_empty.mp hempty).1
    omega
  have hpne : Path.parent path ≠ "" := fun hempty => by
    have hzero := (hparent.eq_empty.mp hempty).1
    omega
  have hsize := (goes_of_look hl).1
  have hpsize : (Path.parent path).utf8ByteSize < 4096 :=
    Nat.lt_of_le_of_lt (size_parent_le h hk) hsize
  have hslash : ∀ piece ∈ Path.pieces path, '/' ∉ piece.toList :=
    fun _ hm => Path.not_slash_of_mem_pieces hm
  rw [look_eq_ok, locate_eq h hne hsize] at hl
  simp only [look_eq_ok, locate_eq hparent hpne hpsize]
  obtain ⟨follow, hwalk⟩ := t.walk_eq .target maxLinks
  obtain ⟨k, rfl⟩ : ∃ n, k = n + 1 := ⟨k - 1, by omega⟩
  have hd : t.entry? (t.origin (k + 1)) = some .directory := by
    rw [hwalk, h.pieces, List.replicate_succ, List.cons_append] at hl
    exact (takes_of_walkPieces (by decide) hl).1
  by_cases hfront : parts.dropLast = []
  · rw [hwalk, hparent.pieces, if_pos hfront, walkPieces_slashes hd,
      walkPieces_stay hd (.inl rfl), walkPieces_nil hd]
    exact ⟨_, rfl⟩
  · have hparts : parts ≠ [] := by
      rintro rfl
      exact hfront rfl
    obtain ⟨front, piece, rfl⟩ := (List.eq_nil_or_concat' parts).resolve_left hparts
    have hpieces : Path.pieces path = Path.pieces (Path.parent path) ++ [piece] := by
      rw [h.pieces, hparent.pieces, if_neg hfront, if_neg hparts, List.dropLast_concat,
        List.append_assoc]
    rw [hpieces] at hl hslash
    exact exists_walk_front hslash (by simp) hl

end Text

end FileTree

end NPlusOne
