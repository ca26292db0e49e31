import NPlusOne.FileTree.Resolve

namespace NPlusOne

namespace FileTree

/-- At some place two trees have nothing, the same directory or link, or a file each. -/
inductive Alike : Option Entry → Option Entry → Prop
  | nothing : Alike none none
  | directory : Alike (some .directory) (some .directory)
  | link (target : String) : Alike (some (.link target)) (some (.link target))
  | file (content content' : Content) : Alike (some (.file content)) (some (.file content'))

/-- Trees that differ in the contents of their files alone. -/
structure SameOutline (t u : FileTree) : Prop where
  cwd : t.cwd = u.cwd
  alike : ∀ names, Alike (t.entry? names) (u.entry? names)

/-- Two walks come to the same place, or fail in the same way. -/
inductive AlikeSpots : Except PathError Spot → Except PathError Spot → Prop
  | failed (e : PathError) : AlikeSpots (.error e) (.error e)
  | free (names : List String) : AlikeSpots (.ok (.free names)) (.ok (.free names))
  | taken {e e' : Entry} (names : List String) : Alike (some e) (some e') →
    AlikeSpots (.ok (.taken names e)) (.ok (.taken names e'))

variable {t u : FileTree}

theorem Alike.isSome {e e' : Option Entry} (h : Alike e e') : e.isSome = e'.isSome := by
  cases h <;> rfl

theorem Alike.directory_iff {e e' : Option Entry} (h : Alike e e') :
    e = some .directory ↔ e' = some .directory := by
  cases h <;> simp

section Walk

variable {ending : Ending} {follow follow' : List String → List String → Except PathError Spot}

/-- What the files hold does not change where a walk leads. -/
theorem SameOutline.walkPieces (h : t.SameOutline u)
    (hfollow : ∀ start ps, AlikeSpots (follow start ps) (follow' start ps))
    (here pieces : List String) :
    AlikeSpots (t.walkPieces ending follow here pieces)
      (u.walkPieces ending follow' here pieces) := by
  induction pieces generalizing here with
  | nil =>
    have hhere := h.alike here
    rw [FileTree.walkPieces, FileTree.walkPieces]
    revert hhere
    generalize t.entry? here = e
    generalize u.entry? here = e'
    rintro (_ | _ | _ | _)
    · exact .failed _
    · exact .taken _ .directory
    · exact .taken _ (.link _)
    · exact .taken _ (.file _ _)
  | cons piece rest ih =>
    have hdir : t.isDirectoryEntry here = u.isDirectoryEntry here := by
      simp only [isDirectoryEntry, (h.alike here).directory_iff]
    have hnext := h.alike (here ++ [piece])
    rw [FileTree.walkPieces, FileTree.walkPieces, hdir, (h.alike here).isSome]
    split
    · split <;> exact .failed _
    split
    · exact ih here
    split
    · exact ih here.dropLast
    split
    · exact .failed _
    split
    · exact .failed _
    revert hnext
    generalize t.entry? (here ++ [piece]) = e
    generalize u.entry? (here ++ [piece]) = e'
    rintro (_ | _ | _ | _)
    · dsimp only
      split
      · exact .free _
      · exact .failed _
    · exact ih _
    · dsimp only
      split
      · exact .taken _ (.link _)
      · exact hfollow _ _
    · exact ih _

theorem SameOutline.walk (h : t.SameOutline u) (links : Nat) (here pieces : List String) :
    AlikeSpots (t.walk ending links here pieces) (u.walk ending links here pieces) := by
  induction links generalizing here pieces with
  | zero => exact h.walkPieces (fun _ _ => .failed _) here pieces
  | succ links ih => exact h.walkPieces ih here pieces

end Walk

theorem SameOutline.locate (h : t.SameOutline u) (ending : Ending) (p : String) :
    AlikeSpots (t.locate ending p) (u.locate ending p) := by
  rw [FileTree.locate, FileTree.locate, h.cwd]
  split
  · exact .failed _
  split
  · exact .failed _
  exact h.walk _ _ _

theorem SameOutline.linkAt? (h : t.SameOutline u) (p : String) : t.linkAt? p = u.linkAt? p := by
  have hspots := h.locate .entry p
  rw [FileTree.linkAt?, FileTree.linkAt?]
  revert hspots
  generalize t.locate .entry p = spot
  generalize u.locate .entry p = spot'
  rintro (_ | _ | ⟨_, hentry⟩)
  · rfl
  · rfl
  · cases hentry <;> rfl

/-- What is found at a path is the same, up to the content of a file. -/
theorem SameOutline.look (h : t.SameOutline u) (p : String) :
    (∃ e, t.look p = .error e ∧ u.look p = .error e) ∨
      ∃ names e e', Alike (some e) (some e') ∧ t.look p = .ok (names, e) ∧
        u.look p = .ok (names, e') := by
  have hspots := h.locate .target p
  rw [FileTree.look, FileTree.look]
  revert hspots
  generalize t.locate .target p = spot
  generalize u.locate .target p = spot'
  rintro (e | _ | ⟨names, hentry⟩)
  · exact .inl ⟨e, rfl, rfl⟩
  · exact .inl ⟨_, rfl, rfl⟩
  · exact .inr ⟨names, _, _, hentry, rfl, rfl⟩

theorem SameOutline.asks (h : t.SameOutline u) {test : Entry → Bool}
    (htest : ∀ e e', Alike (some e) (some e') → test e = test e') (p : String) :
    t.asks test p = u.asks test p := by
  rw [FileTree.asks, FileTree.asks]
  obtain ⟨e, ht, hu⟩ | ⟨names, e, e', hentry, ht, hu⟩ := h.look p
  · rw [ht, hu]
  · rw [ht, hu]
    simp only [htest e e' hentry]

theorem SameOutline.isDirectory (h : t.SameOutline u) (p : String) :
    t.isDirectory p = u.isDirectory p := by
  refine h.asks (fun e e' hentry => ?_) p
  cases hentry <;> rfl

theorem SameOutline.isPresent (h : t.SameOutline u) (p : String) :
    t.isPresent p = u.isPresent p :=
  h.asks (fun _ _ _ => rfl) p

theorem SameOutline.realPieces (h : t.SameOutline u)
    (follow : SeenLinks → String → String → Except Failure RealPath) (seen : SeenLinks)
    (path : String) (pieces : List String) :
    t.realPieces follow seen path pieces = u.realPieces follow seen path pieces := by
  induction pieces generalizing seen path with
  | nil => rfl
  | cons piece rest ih => simp only [FileTree.realPieces, ih, h.linkAt?]

theorem SameOutline.realFrom (h : t.SameOutline u) (depth : Nat) :
    t.realFrom depth = u.realFrom depth := by
  induction depth with
  | zero => rfl
  | succ depth ih =>
    funext seen path rest
    rw [FileTree.realFrom, FileTree.realFrom, ih, h.realPieces]

theorem SameOutline.resolve (h : t.SameOutline u) (p : String) : t.resolve p = u.resolve p := by
  have habsolute : ∀ path, t.absolute path = u.absolute path := by
    intro path
    rw [absolute, absolute, cwdText, cwdText, h.cwd]
  rw [FileTree.resolve, FileTree.resolve, h.realFrom]
  refine bind_congr fun real => ?_
  rw [habsolute]
  refine bind_congr fun _ => ?_
  obtain ⟨e, ht, hu⟩ | ⟨names, e, e', _, ht, hu⟩ := h.look (u.absolute real.path)
  · rw [ht, hu]
  · rw [ht, hu]

end FileTree

end NPlusOne
