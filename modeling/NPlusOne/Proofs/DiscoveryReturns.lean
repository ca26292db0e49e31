import NPlusOne.Cmake.CompileDatabase
import NPlusOne.Proofs.ListCommands

namespace NPlusOne

namespace Cmake

variable {σ : Type} [HasLog σ] {files : FileTree} {input path : String} {st st' : σ}

/-- What a compilation database holds: a document, or nothing if it cannot be read or is none. -/
inductive Holds (files : FileTree) (path : String) : Option Value → Prop
  | unreadable {e : PathError} : files.read path = .error (.path e) → Holds files path none
  | malformed {data : List UInt8} {text : List Char} : files.read path = .ok data →
    Utf8.decode? data = some text → Json.parse text = .error .malformed → Holds files path none
  | document {data : List UInt8} {text : List Char} {v : Value} : files.read path = .ok data →
    Utf8.decode? data = some text → Json.parse text = .ok v → Holds files path (some v)

/-- Reading a database gives the document that the file holds, and nothing else. -/
theorem run_readDatabase {document : Option Value} (st : σ) :
    (∃ st', (readDatabase files path).run st = (.ok document, st')) ↔
      Holds files path document := by
  constructor
  · rintro ⟨st', h⟩
    unfold readDatabase at h
    dsimp only at h
    split at h
    next hr =>
      cases h
      exact .unreadable hr
    next => cases h
    next data hr =>
      split at h
      next => cases h
      next text ht =>
        split at h
        next hj =>
          cases h
          exact .document hr ht hj
        next hj =>
          cases h
          exact .malformed hr ht hj
        next => cases h
        next => cases h
  · intro h
    unfold readDatabase
    cases h with
    | unreadable hr =>
      rw [hr]
      exact ⟨_, rfl⟩
    | malformed hr ht hj =>
      simp only [hr, ht, hj]
      exact ⟨_, rfl⟩
    | document hr ht hj =>
      simp only [hr, ht, hj]
      exact ⟨_, rfl⟩

/-- What a compilation database must hold for a project to be read from it. -/
def DatabaseFits (files : FileTree) (input path : String) : Prop :=
  Holds files path none ∨ ∃ document entries, Holds files path (some document) ∧
    document.parts = .ok entries ∧
    ∀ c ∈ compilations input entries, EntryFits files (Path.parent path) c

theorem ofDatabase_returns :
    Task.Returns (ofDatabase files input path) st ↔ DatabaseFits files input path := by
  rw [ofDatabase, Task.returns_bind]
  constructor
  · rintro ⟨document, mid, hread, h⟩
    have hholds := (run_readDatabase st).mp ⟨mid, hread⟩
    cases document with
    | none => exact .inl hholds
    | some document =>
      obtain ⟨entries, hparts, h⟩ := Task.returns_ofExcept_bind.mp h
      obtain ⟨p, hadd, _⟩ := Task.returns_ofExcept_bind.mp h
      exact .inr ⟨document, entries, hholds, hparts, addEntries_returns.mp ⟨p, hadd⟩⟩
  · rintro (hholds | ⟨document, entries, hholds, hparts, hfits⟩)
    · obtain ⟨mid, hread⟩ := (run_readDatabase st).mpr hholds
      exact ⟨none, mid, hread, Task.returns_pure _ _⟩
    · obtain ⟨mid, hread⟩ := (run_readDatabase st).mpr hholds
      obtain ⟨p, hadd⟩ := addEntries_returns.mpr hfits
      exact ⟨some document, mid, hread, Task.returns_ofExcept_bind.mpr ⟨entries, hparts,
        Task.returns_ofExcept_bind.mpr ⟨p, hadd, ⟨_, rfl⟩⟩⟩⟩

theorem ofDatabase_empty (hh : Holds files path none) :
    ((ofDatabase files input path).run st).1 = .ok {} := by
  obtain ⟨mid, hread⟩ := (run_readDatabase st).mpr hh
  rw [ofDatabase, Task.run_bind_ok hread]
  rfl

/-- A project can be read from a directory in exactly these cases: the path of the directory can be
resolved, and none is too long on which a compilation database is looked for. If there is a
database, it is unreadable or not JSON, or every one of its entries fits by itself; the first one
whose command is nothing finds all of standard input, and later ones find it empty. Without a
database, the list files fit. A database that is unreadable or not JSON gives an empty project. -/
theorem discover_returns_iff (files : FileTree) (input directory : String) (st : σ) :
    ((∃ p, ((discover files input directory).run st).1 = .ok p) ↔
      ∃ root found, files.resolve directory = .ok root ∧
        findDatabase files root buildDirectories = .ok found ∧
        found.elim (ListsFit files root) (DatabaseFits files input)) ∧
    ∀ root path, files.resolve directory = .ok root →
      findDatabase files root buildDirectories = .ok (some path) → Holds files path none →
      ((discover files input directory).run st).1 = .ok {} := by
  constructor
  · change Task.Returns _ _ ↔ _
    rw [discover, Task.returns_ofExcept_bind]
    refine exists_congr fun root => ?_
    rw [Task.returns_ofExcept_bind, exists_and_left]
    refine and_congr_right fun _ => exists_congr fun found => and_congr_right fun _ => ?_
    cases found with
    | none => rw [Task.returns_write_bind, ofListFiles_returns, Option.elim_none]
    | some path => rw [Task.returns_write_bind, ofDatabase_returns, Option.elim_some]
  · intro root path hroot hfound hholds
    have hreturns : ∀ level channel text, ((Log.write level channel text >>= fun _ =>
        ofDatabase files input path).run st).1 = .ok {} := by
      intro level channel text
      exact ofDatabase_empty hholds
    rw [discover, hroot, Task.ofExcept_ok_bind, hfound, Task.ofExcept_ok_bind]
    exact hreturns _ _ _

/-- A root directory with a compilation database alone. -/
def databaseAlone (data : List UInt8) : FileTree where
  entries := [([], .directory), (["compile_commands.json"], .file (.bytes data))]

-- An empty file is no JSON and is passed over; one that is not even text is not.
example : ((discover (databaseAlone []) "" "/").run (#[] : Array Log.Entry)).1 = .ok {} ∧
    ((discover (databaseAlone [0xff]) "" "/").run (#[] : Array Log.Entry)).1 =
      .error .badEncoding := by
  decide +kernel

end Cmake

end NPlusOne
