import NPlusOne.Proofs.CompileEntries
import NPlusOne.Proofs.PathNormal

namespace NPlusOne

namespace Cmake

/-- A flag whose value is the next argument. -/
def TakesNext (arg : Value) : Prop :=
  arg = .text "-I" ∨ arg = .text "-isystem" ∨ arg = .text "-D"

/-- Behind these arguments a flag is read, and not the value of one. -/
inductive AtFlag : List Value → Prop
  | start : AtFlag []
  | alone {arg : Value} {rest : List Value} : ¬ TakesNext arg → AtFlag rest → AtFlag (arg :: rest)
  | taken {arg v : Value} {rest : List Value} : TakesNext arg → AtFlag rest →
    AtFlag (arg :: v :: rest)

section Flags

variable {arg : Value} {s : String}

theorem Flag.of_include (h : s = "-I" ∨ s = "-isystem") :
    Flag.of (.text s) = .ok (.include none) := by
  simp only [Flag.of]
  rw [if_pos (by simpa using h)]

/-- Two texts with different second characters differ. -/
theorem ne_of_second {a b : String} (h : a.toList[1]? ≠ b.toList[1]?) : a ≠ b :=
  fun heq => h (heq ▸ rfl)

theorem Flag.of_joinedInclude (h : s ≠ "") :
    Flag.of (.text ("-I" ++ s)) = .ok (.include (some (.text s))) := by
  have hsystem : "-I" ++ s ≠ "-isystem" := ne_of_second (by simp)
  have hlead : Text.dropLead? "-I".toList ("-I" ++ s).toList = some s.toList :=
    Text.dropLead?_eq_some.mpr String.toList_append
  simp only [Flag.of]
  rw [if_neg (by simpa using ⟨h, hsystem⟩), hlead]
  dsimp only
  rw [String.ofList_toList]

theorem dropLead?_include (h : s.toList[1]? ≠ some 'I') :
    Text.dropLead? "-I".toList s.toList = none := by
  rw [Option.eq_none_iff_forall_ne_some]
  intro rest hrest
  rw [Text.dropLead?_eq_some.mp hrest] at h
  exact h rfl

theorem Flag.of_define : Flag.of (.text "-D") = .ok (.define none) :=
  rfl

theorem Flag.of_joinedDefine (h : s ≠ "") :
    Flag.of (.text ("-D" ++ s)) = .ok (.define (some ("-D" ++ s))) := by
  have hI : "-D" ++ s ≠ "-I" := ne_of_second (by simp)
  have hsystem : "-D" ++ s ≠ "-isystem" := ne_of_second (by simp)
  have hlead : ("-D" ++ s).startsWith "-D" = true := by
    rw [String.startsWith_string_iff, String.toList_append]
    exact List.prefix_append _ _
  simp only [Flag.of]
  rw [if_neg (by simpa using ⟨hI, hsystem⟩), dropLead?_include (by simp)]
  dsimp only
  rw [if_neg (by simpa using h), if_pos hlead]

theorem Flag.of_standard (name : String) :
    Flag.of (.text ("-std=" ++ name)) = .ok (.standard name) := by
  have hI : "-std=" ++ name ≠ "-I" := ne_of_second (by simp)
  have hsystem : "-std=" ++ name ≠ "-isystem" := ne_of_second (by simp)
  have hD : "-std=" ++ name ≠ "-D" := ne_of_second (by simp)
  have hdefine : ¬ ("-std=" ++ name).startsWith "-D" = true := by
    rw [String.startsWith_string_iff, String.toList_append]
    simp
  have hlead : Text.dropLead? "-std=".toList ("-std=" ++ name).toList = some name.toList :=
    Text.dropLead?_eq_some.mpr String.toList_append
  simp only [Flag.of]
  rw [if_neg (by simpa using ⟨hI, hsystem⟩), dropLead?_include (by simp)]
  dsimp only
  rw [if_neg hD, if_neg hdefine, hlead]
  dsimp only
  rw [String.ofList_toList]

/-- A flag whose value is missing in it, and a standard, can be read off what was made of them. -/
theorem Flag.written {flag : Flag} (h : Flag.of arg = .ok flag) :
    ((flag = .include none ∨ flag = .define none) → TakesNext arg) ∧
      ∀ name, flag = .standard name → arg = .text ("-std=" ++ name) := by
  unfold Flag.of at h
  split at h
  next s =>
    split at h
    next hinclude =>
      cases h
      refine ⟨fun _ => ?_, by simp⟩
      rcases (by simpa using hinclude : s = "-I" ∨ s = "-isystem") with rfl | rfl
      · exact .inl rfl
      · exact .inr (.inl rfl)
    next =>
      split at h
      next =>
        cases h
        simp
      next =>
        split at h
        next hdefine =>
          cases h
          exact ⟨fun _ => .inr (.inr (congrArg Value.text hdefine)), by simp⟩
        next =>
          split at h
          next =>
            cases h
            simp
          next =>
            split at h
            next name hlead =>
              cases h
              refine ⟨by simp, fun name' heq => ?_⟩
              cases heq
              refine congrArg Value.text (String.toList_inj.mp ?_)
              rw [Text.dropLead?_eq_some.mp hlead, String.toList_append,
                String.toList_ofList (l := name)]
            next =>
              cases h
              simp
  next => cases h

theorem takesNext_iff {flag : Flag} (h : Flag.of arg = .ok flag) :
    TakesNext arg ↔ flag = .include none ∨ flag = .define none := by
  refine ⟨?_, (Flag.written h).1⟩
  rintro (rfl | rfl | rfl)
  · exact .inl (Except.ok.inj (h.symm.trans (Flag.of_include (.inl rfl))))
  · exact .inl (Except.ok.inj (h.symm.trans (Flag.of_include (.inr rfl))))
  · exact .inr (Except.ok.inj (h.symm.trans Flag.of_define))

theorem Flag.of_takesNext (h : TakesNext arg) :
    Flag.of arg = .ok (.include none) ∨ Flag.of arg = .ok (.define none) := by
  rcases h with rfl | rfl | rfl
  · exact .inl (Flag.of_include (.inl rfl))
  · exact .inl (Flag.of_include (.inr rfl))
  · exact .inr Flag.of_define

end Flags

section Reading

variable {files : FileTree} {directory : String} {before rest : List Value} {flags : Flags}

/-- Where a flag is read, what comes before is done with. -/
theorem flagsOf_append (h : AtFlag before) : flagsOf files directory (before ++ rest) flags =
    flagsOf files directory before flags >>= flagsOf files directory rest := by
  induction h generalizing flags with
  | start => rfl
  | @alone arg before hnext _ ih =>
    rw [List.cons_append]
    cases hflag : Flag.of arg with
    | error e => rw [flagsOf_error hflag, flagsOf_error hflag]; rfl
    | ok flag =>
      have hvalue := (takesNext_iff hflag).not.mp hnext
      rw [not_or] at hvalue
      rw [flagsOf_cons hflag hvalue.1 hvalue.2, flagsOf_cons hflag hvalue.1 hvalue.2, bind_assoc]
      exact bind_congr fun flags => ih
  | @taken arg v before hnext _ ih =>
    rw [List.cons_append, List.cons_append]
    rcases Flag.of_takesNext hnext with hflag | hflag
    · rw [flagsOf_include hflag, flagsOf_include hflag, bind_assoc]
      exact bind_congr fun flags => ih
    · rw [flagsOf_define hflag, flagsOf_define hflag, bind_assoc]
      refine bind_congr fun text => ?_
      rw [bind_assoc]
      exact bind_congr fun flags => ih

end Reading

/-- Between these arguments a standard is read. -/
def StandardBetween (before args : List Value) (name : String) (after : List Value) : Prop :=
  args = before ++ .text ("-std=" ++ name) :: after ∧ AtFlag before

def NoStandard (args : List Value) : Prop :=
  ∀ before name after, ¬ StandardBetween before args name after

/-- The standard that the arguments name: of those that are read, the last. -/
def NamesStandard (args : List Value) (name : String) : Prop :=
  ∃ before after, StandardBetween before args name after ∧ NoStandard after

section Standard

variable {arg v : Value} {args rest : List Value} {name : String}

theorem AtFlag.of_alone (h : AtFlag (arg :: rest)) (hnext : ¬ TakesNext arg) : AtFlag rest := by
  cases h with
  | alone _ h => exact h
  | taken ht => exact absurd ht hnext

theorem AtFlag.of_taken (h : AtFlag (arg :: rest)) (hnext : TakesNext arg) :
    ∃ v after, rest = v :: after ∧ AtFlag after := by
  cases h with
  | alone hn => exact absurd hnext hn
  | taken _ h => exact ⟨_, _, rfl, h⟩

theorem NoStandard.nil : NoStandard [] := by
  rintro before name after ⟨h, _⟩
  simp at h

theorem NoStandard.alone (h : NoStandard rest) (hnext : ¬ TakesNext arg)
    (hname : ∀ name, arg ≠ .text ("-std=" ++ name)) : NoStandard (arg :: rest) := by
  rintro before name after ⟨heq, hat⟩
  obtain ⟨rfl, heq⟩ | ⟨before, rfl, rfl⟩ := List.cons_eq_append_iff.mp heq
  · cases heq
    exact hname name rfl
  · exact h before name after ⟨rfl, hat.of_alone hnext⟩

theorem takesNext_ne_standard (h : TakesNext arg) (name : String) :
    arg ≠ .text ("-std=" ++ name) := by
  rintro rfl
  rcases Flag.of_takesNext h with hflag | hflag <;> cases hflag.symm.trans (Flag.of_standard name)

theorem NoStandard.last (hnext : TakesNext arg) : NoStandard [arg] := by
  rintro before name after ⟨heq, hat⟩
  obtain ⟨rfl, heq⟩ | ⟨before, rfl, heq⟩ := List.cons_eq_append_iff.mp heq
  · cases heq
    exact takesNext_ne_standard hnext name rfl
  · simp at heq

theorem NoStandard.taken (h : NoStandard rest) (hnext : TakesNext arg) :
    NoStandard (arg :: v :: rest) := by
  rintro before name after ⟨heq, hat⟩
  obtain ⟨rfl, heq⟩ | ⟨before, rfl, heq⟩ := List.cons_eq_append_iff.mp heq
  · cases heq
    exact takesNext_ne_standard hnext name rfl
  · obtain ⟨_, before, rfl, hrest⟩ := hat.of_taken hnext
    cases heq
    exact h before name after ⟨rfl, hrest⟩

theorem NamesStandard.alone (h : NamesStandard rest name) (hnext : ¬ TakesNext arg) :
    NamesStandard (arg :: rest) name := by
  obtain ⟨before, after, ⟨rfl, hat⟩, hlast⟩ := h
  exact ⟨arg :: before, after, ⟨rfl, .alone hnext hat⟩, hlast⟩

theorem NamesStandard.taken (h : NamesStandard rest name) (hnext : TakesNext arg) :
    NamesStandard (arg :: v :: rest) name := by
  obtain ⟨before, after, ⟨rfl, hat⟩, hlast⟩ := h
  exact ⟨arg :: v :: before, after, ⟨rfl, .taken hnext hat⟩, hlast⟩

variable {files : FileTree} {directory : String} {flags flags' : Flags}

theorem standard_addTo {flag : Flag} (hflag : ∀ name, flag ≠ .standard name)
    (h : flag.addTo files directory flags = .ok flags') : flags'.standard = flags.standard := by
  cases flag with
  | «include» value =>
    cases value with
    | none => cases h; rfl
    | some v =>
      obtain ⟨found, _, h⟩ := except_bind_eq_ok.mp h
      cases h
      rfl
  | define text => cases text <;> cases h <;> rfl
  | standard name => exact absurd rfl (hflag name)
  | other => cases h; rfl

/-- A flag that is no standard leaves it to the arguments behind it. -/
theorem standard_alone {flag : Flag} {mid : Flags} (hflag : Flag.of arg = .ok flag)
    (hi : flag ≠ .include none) (hd : flag ≠ .define none) (hs : ∀ name, flag ≠ .standard name)
    (hadd : flag.addTo files directory flags = .ok mid)
    (h : (∃ name, NamesStandard rest name ∧ flags'.standard = some name) ∨
      NoStandard rest ∧ flags'.standard = mid.standard) :
    (∃ name, NamesStandard (arg :: rest) name ∧ flags'.standard = some name) ∨
      NoStandard (arg :: rest) ∧ flags'.standard = flags.standard := by
  have hnext : ¬ TakesNext arg := by simp [takesNext_iff hflag, hi, hd]
  have hname : ∀ name, arg ≠ .text ("-std=" ++ name) := by
    rintro name rfl
    exact hs name (Except.ok.inj (hflag.symm.trans (Flag.of_standard name)))
  obtain ⟨name, hnames, hlast⟩ | ⟨hnone, hlast⟩ := h
  · exact .inl ⟨name, hnames.alone hnext, hlast⟩
  · exact .inr ⟨hnone.alone hnext hname, hlast.trans (standard_addTo hs hadd)⟩

/-- So does a flag that takes the next argument. -/
theorem standard_taken {flag : Flag} {mid : Flags} (hnext : TakesNext arg)
    (hs : ∀ name, flag ≠ .standard name) (hadd : flag.addTo files directory flags = .ok mid)
    (h : (∃ name, NamesStandard rest name ∧ flags'.standard = some name) ∨
      NoStandard rest ∧ flags'.standard = mid.standard) :
    (∃ name, NamesStandard (arg :: v :: rest) name ∧ flags'.standard = some name) ∨
      NoStandard (arg :: v :: rest) ∧ flags'.standard = flags.standard := by
  obtain ⟨name, hnames, hlast⟩ | ⟨hnone, hlast⟩ := h
  · exact .inl ⟨name, hnames.taken hnext, hlast⟩
  · exact .inr ⟨hnone.taken hnext, hlast.trans (standard_addTo hs hadd)⟩

/-- Arguments give the standard that they name, and leave it as it was if they name none. -/
theorem standard_flagsOf {asks : List Flag} (hasked : Asked args asks)
    (h : flagsOf files directory args flags = .ok flags') :
    (∃ name, NamesStandard args name ∧ flags'.standard = some name) ∨
      NoStandard args ∧ flags'.standard = flags.standard := by
  induction hasked generalizing flags with
  | nil =>
    cases h
    exact .inr ⟨.nil, rfl⟩
  | joined hflag _ ih | defined hflag _ ih | other hflag _ ih =>
    rw [flagsOf_cons hflag (by simp) (by simp)] at h
    obtain ⟨mid, hadd, h⟩ := except_bind_eq_ok.mp h
    exact standard_alone hflag (by simp) (by simp) (by simp) hadd (ih h)
  | split hflag _ ih =>
    rw [flagsOf_include hflag] at h
    obtain ⟨mid, hadd, h⟩ := except_bind_eq_ok.mp h
    exact standard_taken ((takesNext_iff hflag).mpr (.inl rfl)) (by simp) hadd (ih h)
  | includeNothing hflag =>
    rw [flagsOf_lastInclude hflag] at h
    cases h
    exact .inr ⟨.last ((takesNext_iff hflag).mpr (.inl rfl)), rfl⟩
  | define hflag _ _ ih =>
    rw [flagsOf_define hflag] at h
    obtain ⟨text, _, h⟩ := except_bind_eq_ok.mp h
    obtain ⟨mid, hadd, h⟩ := except_bind_eq_ok.mp h
    exact standard_taken ((takesNext_iff hflag).mpr (.inr rfl)) (by simp) hadd (ih h)
  | defineNothing hflag =>
    rw [flagsOf_lastDefine hflag] at h
    cases h
    exact .inr ⟨.last ((takesNext_iff hflag).mpr (.inr rfl)), rfl⟩
  | @standard arg name rest _ hflag _ ih =>
    rw [flagsOf_cons hflag (by simp) (by simp)] at h
    obtain ⟨mid, hadd, h⟩ := except_bind_eq_ok.mp h
    cases hadd
    have hnext : ¬ TakesNext arg := by simp [takesNext_iff hflag]
    obtain ⟨name', hnames, hlast⟩ | ⟨hnone, hlast⟩ := ih h
    · exact .inl ⟨name', hnames.alone hnext, hlast⟩
    · have harg : arg = .text ("-std=" ++ name) := (Flag.written hflag).2 name rfl
      exact .inl ⟨name, ⟨[], rest, ⟨by rw [harg]; rfl, .start⟩, hnone⟩, hlast⟩

/-- The standard among the flags is the one that the arguments name. -/
theorem standard_eq_some_iff (h : flagsOf files directory args {} = .ok flags) :
    flags.standard = some name ↔ NamesStandard args name := by
  obtain ⟨asks, hasked⟩ := exists_asked h
  constructor
  · intro hsome
    obtain ⟨name', hnames, hlast⟩ | ⟨_, hlast⟩ := standard_flagsOf hasked h
    · cases hsome.symm.trans hlast
      exact hnames
    · cases hsome.symm.trans hlast
  · rintro ⟨before, after, ⟨rfl, hat⟩, hnone⟩
    rw [flagsOf_append hat] at h
    obtain ⟨front, _, h⟩ := except_bind_eq_ok.mp h
    rw [flagsOf_cons (Flag.of_standard name) (by simp) (by simp)] at h
    obtain ⟨mid, hadd, h⟩ := except_bind_eq_ok.mp h
    cases hadd
    obtain ⟨asks, hasked⟩ := exists_asked h
    obtain ⟨_, ⟨before', after', hbetween, _⟩, _⟩ | ⟨_, hlast⟩ := standard_flagsOf hasked h
    · exact absurd hbetween (hnone _ _ _)
    · exact hlast

end Standard

end Cmake

end NPlusOne
