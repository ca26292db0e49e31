import NPlusOne.FileTree
import NPlusOne.Proofs.FileWalk
import NPlusOne.Proofs.TaskRun
import NPlusOne.Text.Lines
import NPlusOne.Text.Utf8

namespace NPlusOne

namespace FileTree

variable {t : FileTree} {here names pieces : List String} {e : Entry} {content : Content}
  {spot : Spot} {ending : Ending}
  {follow follow' : List String → List String → Except PathError Spot}

theorem lookup_put (t : FileTree) (names other : List String) (e : Entry) :
    FileTree.entry? (t.put names e) other = if other = names then some e else t.entry? other := by
  have hfront : (t.entries.filter (·.1 ≠ names)).find? (·.1 = other) =
      if other = names then none else t.entries.find? (·.1 = other) := by
    rw [List.find?_filter]
    split
    next heq =>
      rw [List.find?_eq_none]
      rintro p _
      simp [heq]
    next hne =>
      congr 1
      funext p
      by_cases hp : p.1 = other
      · simp [hp, hne]
      · simp [hp]
  rw [put, entry?, List.find?_append, hfront]
  split
  next heq => simp [heq]
  next hne => simp [Ne.symm hne, entry?]

/-- A place where a file can be written. -/
def Spot.isWritable (names : List String) (spot : Spot) : Prop :=
  spot = .free names ∨ ∃ content, spot = .taken names (.file content)

/-- A walk to a place where something is made also ends there when it looks for something. -/
theorem walkPieces_target (hp : ∀ piece ∈ pieces, '/' ∉ piece.toList)
    (hfollow : ∀ start ps, (∀ piece ∈ ps, '/' ∉ piece.toList) → follow start ps = .ok spot →
      follow' start ps = .ok spot)
    (h : t.walkPieces .making follow here pieces = .ok spot) :
    t.walkPieces .target follow' here pieces = .ok spot := by
  induction pieces generalizing here with
  | nil => exact h
  | cons piece rest ih =>
    have hrest : ∀ piece ∈ rest, '/' ∉ piece.toList := fun other hm => hp other (by simp [hm])
    have ha : Ending.target.Admits rest := Ending.admits_of_ne (by simp)
    obtain ⟨hd, hstep⟩ := walkPieces_cons_eq_ok (by simp) (hp piece (by simp)) h
    rcases hstep with ⟨hstay, hgo⟩ | ⟨rfl, hgo⟩ | ⟨hname, hf, -, hentry⟩
    · rw [walkPieces_stay hd hstay]
      exact ih hrest hgo
    · rw [walkPieces_up hd]
      exact ih hrest hgo
    · rcases hentry with ⟨rfl, rfl, he⟩ | ⟨e, he, hn, hgo⟩ | ⟨target, he, hgo⟩
      · exact walkPieces_free hd hname hf he
      · rw [walkPieces_enter ha hd hname hf he hn]
        exact ih hrest hgo
      · rw [walkPieces_link (by simp) ha hd hname hf he]
        exact hfollow _ _ (not_slash_behind_link target hrest) hgo

/-- What a walk says to be free is so. -/
theorem isFree_of_walkPieces (hp : ∀ piece ∈ pieces, '/' ∉ piece.toList)
    (hfollow : ∀ start ps, (∀ piece ∈ ps, '/' ∉ piece.toList) →
      follow start ps = .ok (.free names) → t.entry? names = none)
    (h : t.walkPieces .target follow here pieces = .ok (.free names)) : t.entry? names = none := by
  induction pieces generalizing here with
  | nil =>
    rw [walkPieces] at h
    split at h <;> cases h
  | cons piece rest ih =>
    have hrest : ∀ piece ∈ rest, '/' ∉ piece.toList := fun other hm => hp other (by simp [hm])
    obtain ⟨_, htakes⟩ := takes_of_walkPieces (hp piece (by simp)) h
    cases htakes with
    | stay _ h | up h | enter _ _ _ _ h => exact ih hrest h
    | free _ hspot _ _ he =>
      cases hspot
      exact he
    | link _ _ _ h => exact hfollow _ _ (not_slash_behind_link _ hrest) h

theorem isFree_of_walk {links : Nat} (hp : ∀ piece ∈ pieces, '/' ∉ piece.toList)
    (h : t.walk .target links here pieces = .ok (.free names)) : t.entry? names = none := by
  induction links generalizing here pieces with
  | zero => exact isFree_of_walkPieces hp (fun _ _ _ h => by cases h) h
  | succ links ih => exact isFree_of_walkPieces hp (fun _ _ hps h => ih hps h) h

theorem entry?_put_of_ne (t : FileTree) {other : List String} (h : other ≠ names)
    (content : Content) :
    FileTree.entry? (t.put names (.file content)) other = t.entry? other :=
  (lookup_put t names other _).trans (if_neg h)

/-- Where a file has been written, the walk that led there finds it. -/
theorem walkPieces_put (hend : ending ≠ .entry) (hdir : t.entry? names ≠ some .directory)
    (hlink : ∀ target, t.entry? names ≠ some (.link target)) (hspot : spot.isWritable names)
    (hp : ∀ piece ∈ pieces, '/' ∉ piece.toList)
    (hfollow : ∀ start ps, (∀ piece ∈ ps, '/' ∉ piece.toList) → follow start ps = .ok spot →
      follow' start ps = .ok (.taken names (.file content)))
    (h : t.walkPieces ending follow here pieces = .ok spot) :
    (t.put names (.file content)).walkPieces ending follow' here pieces =
      .ok (.taken names (.file content)) := by
  have hput : FileTree.entry? (t.put names (.file content)) names = some (.file content) :=
    (lookup_put t names names _).trans (if_pos rfl)
  induction pieces generalizing here with
  | nil =>
    have heq : here = names := by
      rw [walkPieces] at h
      split at h
      next e he =>
        cases h
        rcases hspot with hspot | ⟨_, hspot⟩
        · cases hspot
        · cases hspot
          rfl
      next => cases h
    subst heq
    exact walkPieces_nil hput
  | cons piece rest ih =>
    have hrest : ∀ piece ∈ rest, '/' ∉ piece.toList := fun other hm => hp other (by simp [hm])
    obtain ⟨hd, hstep⟩ := walkPieces_cons_eq_ok hend (hp piece (by simp)) h
    have hhere : here ≠ names := by
      rintro rfl
      exact hdir hd
    have hd' := (entry?_put_of_ne t hhere content).trans hd
    rcases hstep with ⟨hstay, hgo⟩ | ⟨rfl, hgo⟩ | ⟨hname, hf, ha, hentry⟩
    · rw [walkPieces_stay hd' hstay]
      exact ih hrest hgo
    · rw [walkPieces_up hd']
      exact ih hrest hgo
    · by_cases heq : here ++ [piece] = names
      · -- The walk has come to the file, whether the name was free or held another one.
        have hat : FileTree.entry? (t.put names (.file content)) (here ++ [piece]) =
            some (.file content) := by rw [heq, hput]
        rw [walkPieces_enter ha hd' hname hf hat (by simp)]
        rcases hentry with ⟨rfl, _, _⟩ | ⟨e, _, _, hgo⟩ | ⟨target, he, _⟩
        · rw [heq]
          exact walkPieces_nil hput
        · exact ih hrest hgo
        · exact absurd (heq ▸ he) (hlink target)
      · have hsame := entry?_put_of_ne t heq content
        rcases hentry with ⟨_, hfree, _⟩ | ⟨e, he, hn, hgo⟩ | ⟨target, he, hgo⟩
        · rcases hspot with hspot | ⟨_, hspot⟩
          · cases hfree.symm.trans hspot
            exact absurd rfl heq
          · cases hfree.symm.trans hspot
        · rw [walkPieces_enter ha hd' hname hf (hsame.trans he) hn]
          exact ih hrest hgo
        · rw [walkPieces_link hend ha hd' hname hf (hsame.trans he)]
          exact hfollow _ _ (not_slash_behind_link target hrest) hgo

theorem walk_put {links : Nat} (hend : ending ≠ .entry) (hdir : t.entry? names ≠ some .directory)
    (hlink : ∀ target, t.entry? names ≠ some (.link target)) (hspot : spot.isWritable names)
    (hp : ∀ piece ∈ pieces, '/' ∉ piece.toList) (h : t.walk ending links here pieces = .ok spot) :
    (t.put names (.file content)).walk ending links here pieces =
      .ok (.taken names (.file content)) := by
  induction links generalizing here pieces with
  | zero => exact walkPieces_put hend hdir hlink hspot hp (fun _ _ _ h => by cases h) h
  | succ links ih => exact walkPieces_put hend hdir hlink hspot hp (fun _ _ hps h => ih hps h) h

theorem walk_target {links : Nat} (hp : ∀ piece ∈ pieces, '/' ∉ piece.toList)
    (h : t.walk .making links here pieces = .ok spot) :
    t.walk .target links here pieces = .ok spot := by
  induction links generalizing here pieces with
  | zero => exact walkPieces_target hp (fun _ _ _ h => by cases h) h
  | succ links ih => exact walkPieces_target hp (fun _ _ hps h => ih hps h) h

/-- A path leads to the file that has been written there. -/
theorem locate_put {path : String} (hend : ending ≠ .entry) (hspot : spot.isWritable names)
    (h : t.locate .making path = .ok spot) :
    (t.put names (.file content)).locate ending path = .ok (.taken names (.file content)) := by
  rw [locate] at h ⊢
  split at h
  next => cases h
  next hempty =>
    split at h
    next => cases h
    next hsize =>
      have hp : ∀ piece ∈ Path.pieces path, '/' ∉ piece.toList :=
        fun _ hm => Path.not_slash_of_mem_pieces hm
      have hentry : t.entry? names = none ∨ ∃ content, t.entry? names = some (.file content) := by
        rcases hspot with rfl | ⟨content, rfl⟩
        · exact .inl (isFree_of_walk hp (walk_target hp h))
        · exact .inr ⟨content, (goes_of_walk hp (walk_target hp h)).2⟩
      have hwalk : t.walk ending maxLinks (if Path.isAbsolute path then [] else t.cwd)
          (Path.pieces path) = .ok spot := by
        cases ending with
        | entry => exact absurd rfl hend
        | target => exact walk_target hp h
        | making => exact h
      rw [if_neg hempty, if_neg hsize]
      refine walk_put hend (fun hdir => ?_) (fun target hlink => ?_) hspot hp hwalk
      · rcases hentry with he | ⟨_, he⟩ <;> cases he.symm.trans hdir
      · rcases hentry with he | ⟨_, he⟩ <;> cases he.symm.trans hlink

theorem writable_eq_ok {path : String} : t.writable path = .ok names ↔
    checkPath path = .ok () ∧ ∃ spot, spot.isWritable names ∧ t.locate .making path = .ok spot := by
  rw [writable, except_bind_eq_ok]
  constructor
  · rintro ⟨_, hcheck, hplace⟩
    refine ⟨hcheck, ?_⟩
    split at hplace
    next content h =>
      cases hplace
      exact ⟨_, .inr ⟨content, rfl⟩, h⟩
    next => cases hplace
    next h =>
      cases hplace
      exact ⟨_, .inl rfl, h⟩
    next => cases hplace
  · rintro ⟨hcheck, spot, hspot, h⟩
    refine ⟨(), hcheck, ?_⟩
    rcases hspot with rfl | ⟨content, rfl⟩ <;> rw [h] <;> rfl

/-- Where a file has been written, it can be written again. -/
theorem writable_put {path : String} (h : t.writable path = .ok names) (content : Content) :
    (t.put names (.file content)).writable path = .ok names := by
  obtain ⟨hcheck, spot, hspot, hlocate⟩ := writable_eq_ok.mp h
  exact writable_eq_ok.mpr ⟨hcheck, _, .inr ⟨content, rfl⟩, locate_put (by simp) hspot hlocate⟩

theorem look_put {path : String} (h : t.writable path = .ok names) (content : Content) :
    (t.put names (.file content)).look path = .ok (names, .file content) := by
  obtain ⟨_, spot, hspot, hlocate⟩ := writable_eq_ok.mp h
  rw [look, locate_put (by simp) hspot hlocate]

/-- A file that has been written holds what was written. -/
theorem read_write {path : String} {data : List UInt8} {t' : FileTree}
    (h : t.write path (.bytes data) = .ok t') : t'.read path = .ok data := by
  obtain ⟨names, hnames, ht⟩ := except_bind_eq_ok.mp h
  cases ht
  rw [read, (writable_eq_ok.mp hnames).1, look_put hnames]
  rfl

end FileTree

namespace Workspace

theorem run_change {f : FileTree → Except Failure FileTree} {w w' : Workspace} :
    (change f).run w = (.ok (), w') ↔
      ∃ files, f w.files = .ok files ∧ w' = { w with files } := by
  have hrun : (change f).run w =
      (Task.ofExcept (f w.files) >>= fun files => modify fun w => { w with files }).run w := rfl
  rw [hrun]
  constructor
  · intro h
    obtain ⟨files, hfiles, h⟩ := Task.ofExcept_bind_eq_ok h
    cases h
    exact ⟨files, hfiles, rfl⟩
  · rintro ⟨files, hfiles, rfl⟩
    exact Task.run_ofExcept_bind hfiles _ w

theorem run_write {path : String} {content : Content} {w w' : Workspace} :
    (write path content).run w = (.ok (), w') ↔ ∃ names, w.files.writable path = .ok names ∧
      w' = { w with files := w.files.put names (.file content) } := by
  rw [write, run_change]
  constructor
  · rintro ⟨files, hwrite, rfl⟩
    obtain ⟨names, hnames, hput⟩ := except_bind_eq_ok.mp hwrite
    cases hput
    exact ⟨names, hnames, rfl⟩
  · rintro ⟨names, hnames, rfl⟩
    exact ⟨_, except_bind_eq_ok.mpr ⟨names, hnames, rfl⟩, rfl⟩

end Workspace

namespace Utf8

theorem toList_loop (bytes : ByteArray) (i : Nat) (done : List UInt8) :
    ByteArray.toList.loop bytes i done = done.reverse ++ bytes.data.toList.drop i := by
  have hsize : bytes.data.toList.length = bytes.size := rfl
  induction hn : bytes.size - i generalizing i done with
  | zero =>
    rw [ByteArray.toList.loop, if_neg (by omega), List.drop_eq_nil_of_le (by omega),
      List.append_nil]
  | succ n ih =>
    have hlt : i < bytes.data.toList.length := by omega
    have hget : bytes.get! i = bytes.data.toList[i] := getElem!_pos bytes.data i hlt
    rw [ByteArray.toList.loop, if_pos (by omega), ih _ _ (by omega), List.drop_eq_getElem_cons hlt,
      hget, List.reverse_cons, List.append_assoc, List.singleton_append]

/-- The text of ASCII bytes is theirs one by one. -/
theorem decode?_ascii {bytes : List UInt8} (h : ∀ b ∈ bytes, b < 0x80) :
    decode? bytes = some (bytes.map fun b => Char.ofNat b.toNat) := by
  rw [decode?]
  induction bytes with
  | nil => simp [marks]
  | cons b bytes ih =>
    rw [List.forall_mem_cons] at h
    rw [marks, if_pos h.1, List.mapM_cons, ih h.2]
    rfl

theorem utf8EncodeChar_ascii {c : Char} (h : c.toNat < 0x80) :
    String.utf8EncodeChar c = [c.val.toUInt8] := by
  refine String.utf8EncodeChar_eq_singleton ?_
  rw [Char.utf8Size, if_pos]
  exact Nat.le_of_lt_succ h

theorem toNat_toUInt8 {c : Char} (h : c.toNat < 0x80) : c.val.toUInt8.toNat = c.toNat := by
  have hval : c.val.toNat = c.toNat := rfl
  rw [UInt32.toNat_toUInt8, hval]
  omega

/-- ASCII texts are written and read character by character. -/
theorem decode?_toUTF8 {s : String} (h : ∀ c ∈ s.toList, c.toNat < 0x80) :
    decode? s.toUTF8.toList = some s.toList := by
  have hbytes : s.toUTF8.toList = s.toList.map fun c => c.val.toUInt8 := by
    rw [ByteArray.toList, toList_loop, List.reverse_nil, List.nil_append, List.drop_zero,
      String.toUTF8, ← String.utf8Encode_toList, List.utf8Encode, List.data_toByteArray,
      ← List.flatMap_singleton' (s.toList.map _), List.flatMap_map]
    exact List.flatMap_congr fun c hc => utf8EncodeChar_ascii (h c hc)
  rw [hbytes, decode?_ascii, List.map_map]
  · refine congrArg some ((List.map_congr_left fun c hc => ?_).trans (List.map_id s.toList))
    exact (congrArg Char.ofNat (toNat_toUInt8 (h c hc))).trans (Char.ofNat_toNat c)
  · intro b hb
    obtain ⟨c, hc, rfl⟩ := List.mem_map.mp hb
    rw [UInt8.lt_iff_toNat_lt, toNat_toUInt8 (h c hc)]
    exact h c hc

end Utf8

theorem Text.unifyNewlines_eq {text : List Char} (h : '\r' ∉ text) : unifyNewlines text = text := by
  induction text with
  | nil => rfl
  | cons c text ih =>
    rw [List.mem_cons, not_or] at h
    rw [unifyNewlines, ih h.2]
    · exact fun _ heq => absurd heq.symm h.1
    · exact fun heq => absurd heq.symm h.1

end NPlusOne
