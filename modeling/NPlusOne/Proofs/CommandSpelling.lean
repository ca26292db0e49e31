import NPlusOne.Proofs.ArgumentFlags

namespace NPlusOne

namespace ShellWords

/-- A character inside single quotation marks. A mark closes the quotation, stands behind a
backslash and opens the quotation again. -/
def quoteChar (c : Char) : List Char :=
  if c = '\'' then ['\'', '\\', '\'', '\''] else [c]

/-- A word in single quotation marks. -/
def quote (word : List Char) : List Char :=
  '\'' :: word.flatMap quoteChar ++ ['\'']

/-- The command line of the arguments, each of them in quotation marks. -/
def commandLine (args : List String) : String :=
  " ".intercalate (args.map fun arg => String.ofList (quote arg.toList))

theorem split_quoteChar (c : Char) (begun : Option (List Char)) (text : List Char) :
    split (.quoted '\'') begun (quoteChar c ++ text) =
      split (.quoted '\'') (some (c :: begun.getD [])) text := by
  unfold quoteChar
  split
  next hmark => simp [split, isSpace, isMark, hmark]
  next hmark => simp [split, hmark]

theorem split_quote (word rest : List Char) :
    split .plain none (quote word ++ rest) = split .plain (some word.reverse) rest := by
  have hinside : ∀ begun, split (.quoted '\'') begun (word.flatMap quoteChar ++ '\'' :: rest) =
      split .plain (some (word.reverse ++ begun.getD [])) rest := by
    induction word with
    | nil => intro begun; simp [split]
    | cons c word ih =>
      intro begun
      rw [List.flatMap_cons, List.append_assoc, split_quoteChar, ih]
      simp
  have hopen : split .plain none (quote word ++ rest) =
      split (.quoted '\'') none (word.flatMap quoteChar ++ '\'' :: rest) := by
    simp [quote, split, isSpace, isMark]
  rw [hopen, hinside]
  simp

theorem split_space (word rest : List Char) : split .plain (some word.reverse) (' ' :: rest) =
    (split .plain none rest).map (word :: ·) := by
  simp [split, isSpace]

theorem split_quotes (words : List (List Char)) :
    split .plain none ([' '].intercalate (words.map quote)) = .ok words := by
  induction words with
  | nil => rfl
  | cons word words ih =>
    cases words with
    | nil =>
      rw [List.map_singleton, List.intercalate_singleton, ← List.append_nil (quote word),
        split_quote]
      simp [split]
    | cons next words =>
      rw [List.map_cons, List.map_cons, List.intercalate_cons_cons, List.append_assoc, split_quote,
        ← List.map_cons, List.singleton_append, split_space, ih]
      rfl

end ShellWords

open ShellWords in
theorem shellWords_commandLine (args : List String) : shellWords (commandLine args) = .ok args := by
  have htext : (commandLine args).toList =
      [' '].intercalate ((args.map String.toList).map quote) := by
    simp [commandLine, String.toList_intercalate, Function.comp_def]
  rw [shellWords, htext, split_quotes]
  simp [Except.map, Function.comp_def]

theorem Value.member?_of_text {v : Value} {key text : String}
    (h : v.member key = .ok (.text text)) : v.member? key = .ok (some (.text text)) := by
  unfold member at h
  cases hv : v.member? key with
  | error e => simp [hv, Except.map] at h
  | ok found =>
    cases found with
    | none => simp [hv, Except.map] at h
    | some value => simpa [hv, Except.map] using h

namespace Cmake

open ShellWords

section Entries

variable {args : List String} {entry : Value} {input : String}

theorem argumentsOf_listed (hargs : args ≠ [])
    (h : entry.member "arguments" = .ok (.list (args.map .text))) :
    argumentsOf ⟨entry, input⟩ = .ok (args.map .text) := by
  have htruthy : (Value.list (args.map .text)).isTruthy = true := by
    simpa [Value.isTruthy, Value.unfold] using hargs
  refine except_bind_eq_ok.mpr ⟨_, h, ?_⟩
  rw [if_pos htruthy]
  rfl

theorem argumentsOf_written {absent : Value} (harguments : entry.member "arguments" = .ok absent)
    (habsent : absent.isTruthy = false)
    (h : entry.member? "command" = .ok (some (.text (commandLine args)))) :
    argumentsOf ⟨entry, input⟩ = .ok (args.map .text) := by
  refine except_bind_eq_ok.mpr ⟨_, harguments, ?_⟩
  rw [if_neg (by simp [habsent])]
  refine except_bind_eq_ok.mpr ⟨_, h, ?_⟩
  dsimp only
  rw [wordsOf, shellWords_commandLine]

/-- Of an entry only its directory, its arguments and its file count. -/
theorem addEntry_congr {files : FileTree} {home : String} {c c' : Compilation}
    (hdirectory : c.entry.member "directory" = c'.entry.member "directory")
    (harguments : argumentsOf c = argumentsOf c')
    (hfile : c.entry.member "file" = c'.entry.member "file") (p : CmakeProject) :
    addEntry files home p c = addEntry files home p c' := by
  have hsource : ∀ directory,
      sourceOf files directory c.entry = sourceOf files directory c'.entry :=
    fun directory => by simp only [sourceOf, hfile]
  rw [addEntry_eq, addEntry_eq, hdirectory, harguments]
  simp only [hsource]

end Entries

section Joined

variable {files : FileTree} {directory v : String} {before : List Value} {flags : Flags}

theorem flagsOf_joinedInclude (h : AtFlag before) (hv : v ≠ "") (after : List Value) :
    flagsOf files directory (before ++ .text "-I" :: .text v :: after) flags =
      flagsOf files directory (before ++ .text ("-I" ++ v) :: after) flags := by
  rw [flagsOf_append h, flagsOf_append h]
  refine bind_congr fun flags => ?_
  rw [flagsOf_include (Flag.of_include (.inl rfl)),
    flagsOf_cons (Flag.of_joinedInclude hv) (by simp) (by simp)]

theorem flagsOf_joinedDefine (h : AtFlag before) (hv : v ≠ "") (after : List Value) :
    flagsOf files directory (before ++ .text "-D" :: .text v :: after) flags =
      flagsOf files directory (before ++ .text ("-D" ++ v) :: after) flags := by
  have hshown : (Value.text v).shown = .ok v := rfl
  rw [flagsOf_append h, flagsOf_append h]
  refine bind_congr fun flags => ?_
  rw [flagsOf_define Flag.of_define, flagsOf_cons (Flag.of_joinedDefine hv) (by simp) (by simp),
    hshown]
  rfl

end Joined

/-- Two spellings of a compilation say the same. The arguments may be listed or stand in a command
line, each in quotation marks; and an include directory or a definition may be joined to its flag
or follow it, wherever a flag is read. -/
theorem spellings_agree (files : FileTree) :
    (∀ (home input : String) (args : List String) (listed written absent : Value), args ≠ [] →
      listed.member "arguments" = .ok (.list (args.map .text)) →
      written.member "arguments" = .ok absent → absent.isTruthy = false →
      written.member "command" = .ok (.text (commandLine args)) →
      argumentsOf ⟨listed, input⟩ = .ok (args.map .text) ∧
        argumentsOf ⟨written, input⟩ = .ok (args.map .text) ∧
        (listed.member "directory" = written.member "directory" →
          listed.member "file" = written.member "file" →
          ∀ p, addEntry files home p ⟨listed, input⟩ = addEntry files home p ⟨written, input⟩)) ∧
    ∀ (directory v : String) (before after : List Value) (flags : Flags), AtFlag before → v ≠ "" →
      flagsOf files directory (before ++ .text "-I" :: .text v :: after) flags =
        flagsOf files directory (before ++ .text ("-I" ++ v) :: after) flags ∧
      flagsOf files directory (before ++ .text "-D" :: .text v :: after) flags =
        flagsOf files directory (before ++ .text ("-D" ++ v) :: after) flags := by
  constructor
  · intro home input args listed written absent hargs hlisted harguments habsent hwritten
    have hleft : argumentsOf ⟨listed, input⟩ = .ok (args.map .text) :=
      argumentsOf_listed hargs hlisted
    have hright : argumentsOf ⟨written, input⟩ = .ok (args.map .text) :=
      argumentsOf_written harguments habsent (Value.member?_of_text hwritten)
    exact ⟨hleft, hright, fun hdirectory hfile =>
      addEntry_congr hdirectory (hleft.trans hright.symm) hfile⟩
  · intro directory v before after flags hbefore hv
    exact ⟨flagsOf_joinedInclude hbefore hv after, flagsOf_joinedDefine hbefore hv after⟩

end Cmake

namespace SampleCommand

open Cmake ShellWords

def args : List String :=
  ["cc", "-D", "NAME='it is'", "-I", "-std=c++11", "", "-D", "B"]

def listed : Value :=
  .map [(.text "directory", .text "/"), (.text "arguments", .list (args.map .text))]

def written : Value :=
  .map [(.text "directory", .text "/"), (.text "command",
    .text "'cc' '-D' 'NAME='\\''it is'\\''' '-I' '-std=c++11' '' '-D' 'B'")]

/-- What looks like a standard is an include directory here, and a quotation mark is a character of
the definition. -/
theorem listed_agrees_written :
    argumentsOf ⟨listed, ""⟩ = .ok (args.map .text) ∧
    argumentsOf ⟨written, ""⟩ = .ok (args.map .text) ∧
    (∀ p, addEntry .empty "/" p ⟨listed, ""⟩ = addEntry .empty "/" p ⟨written, ""⟩) ∧
    flagsOf .empty "/" (args.map .text) {} =
      flagsOf .empty "/" (["cc", "-D", "NAME='it is'", "-I", "-std=c++11", "", "-DB"].map .text)
        {} := by
  have hline : commandLine args =
      "'cc' '-D' 'NAME='\\''it is'\\''' '-I' '-std=c++11' '' '-D' 'B'" := by
    decide +kernel
  have hlisted : listed.member "arguments" = .ok (.list (args.map .text)) := by
    simp [listed, Value.member, Value.member?, Value.unfold, Value.find?, Value.same, Except.map]
  have habsent : written.member "arguments" = .ok .null := by
    simp [written, Value.member, Value.member?, Value.unfold, Value.find?, Value.same, Except.map]
  have hcommand : written.member "command" = .ok (.text (commandLine args)) := by
    rw [hline]
    simp [written, Value.member, Value.member?, Value.unfold, Value.find?, Value.same, Except.map]
  have hother : ∀ key, key = "directory" ∨ key = "file" →
      listed.member key = written.member key := by
    rintro key (rfl | rfl) <;>
      simp [listed, written, Value.member, Value.member?, Value.unfold, Value.find?, Value.same,
        Except.map]
  have hbefore : AtFlag (["cc", "-D", "NAME='it is'", "-I", "-std=c++11", ""].map .text) :=
    .alone (by simp [TakesNext]) (.taken (by simp [TakesNext]) (.taken (by simp [TakesNext])
      (.alone (by simp [TakesNext]) .start)))
  obtain ⟨hentries, hflags⟩ := spellings_agree .empty
  obtain ⟨hleft, hright, hadd⟩ :=
    hentries "/" "" args listed written .null (by simp [args]) hlisted habsent rfl hcommand
  exact ⟨hleft, hright, hadd (hother _ (.inl rfl)) (hother _ (.inr rfl)),
    (hflags "/" "B" _ [] {} hbefore (by simp)).2⟩

end SampleCommand

end NPlusOne
