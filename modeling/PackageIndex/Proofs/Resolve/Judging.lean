/-
  PackageIndex.Proofs.Resolve.Judging — what judging files can come to.

  `Judges` has one case for each way a file leaves the judge, `JudgesSource` one for each
  way a source that is built does, and `JudgesAll` is a run over the files in order.
  - `judge_eq_ok`, `judgeSource_eq_ok`, `judgeAll_eq_ok`: these are the answers there are.
  - `isBinaryOnly_cons`: before the run, files are asked one after another whether they say that
    there are no sources.
  `Resolves` has one case for each answer about a package.
  - `resolves_iff`: these are the answers there are; `resolve_eq_ok` are those of a mode that
    does not ask whether a package has sources.
  - `judgesAll_of_resolve`: a package that is resolved down to its files is put together
    from a run over them.
-/

import PackageIndex.Proofs.Fallible
import PackageIndex.Resolve.Assembly

namespace PackageIndex

open Fallible

variable {ctx : BuildContext} {mode : ResolveMode} {dir : String}

/-! ## Sources -/

def usesCgo (file : String) (imports : List Import) : Bool := !isTestName file && imports.any (·.path == "C")

def listingOf (ctx : BuildContext) (n : Naming) (file pkg : String) (imports : List Import) : Listing :=
  sourceListing ctx (usesCgo file imports) (testedPackage? n file pkg).isSome (isTestName file)

/-- What a source comes to that is built; `o` is what was known of it and `n` of the package. -/
inductive JudgesSource (ctx : BuildContext) (mode : ResolveMode) (dir : String) (n : Naming) (f : FileView)
    (o : Outcome) : Outcome → Naming → Prop
  | documentation : f.pkgName = .ok documentationName →
    JudgesSource ctx mode dir n f o { o with listing := some .ignoredGo } n
  | source {pkg : String} {named n' : Naming} {commented : List PackageProblem} {imports : List Import}
    {embeds : List Embed} :
    f.pkgName = .ok pkg → pkg ≠ documentationName →
    meetSynopsis (isTestName o.name) f (n.meet dir o.name ((testedPackage? n o.name pkg).getD pkg)).1 = .ok named →
    meetCommentOf mode dir o.name f named = .ok (n', commented) → f.imports = .ok imports →
    embedsFor (listingOf ctx n o.name pkg imports) f = .ok embeds →
    JudgesSource ctx mode dir n f o
      { o with
        listing := some (listingOf ctx n o.name pkg imports)
        problems := o.problems ++ (n.meet dir o.name ((testedPackage? n o.name pkg).getD pkg)).2 ++ commented ++
          (cgoOf ctx dir o.name imports).2
        tags := o.tags ++ (if usesCgo o.name imports then ["cgo"] else [])
        flags := (cgoOf ctx dir o.name imports).1
        imports := if listingOf ctx n o.name pkg imports = .ignoredGo then [] else imports
        embeds } n'

theorem judgeSource_eq_ok {n n' : Naming} {f : FileView} {o o' : Outcome} :
    judgeSource ctx mode dir n f o = .ok (o', n') ↔ JudgesSource ctx mode dir n f o o' n' := by
  constructor
  · intro h
    obtain ⟨pkg, hpkg, h⟩ := bind_eq_ok.mp h
    split at h
    · rename_i hdoc
      cases h
      exact .documentation (hdoc ▸ hpkg)
    · rename_i hdoc
      obtain ⟨named, hnamed, h⟩ := bind_eq_ok.mp h
      obtain ⟨⟨n2, commented⟩, hcommented, h⟩ := bind_eq_ok.mp h
      obtain ⟨imports, himports, h⟩ := bind_eq_ok.mp h
      obtain ⟨embeds, hembeds, h⟩ := bind_eq_ok.mp h
      cases h
      exact .source hpkg hdoc hnamed hcommented himports hembeds
  · intro h
    cases h with
    | documentation hpkg => exact bind_eq_ok.mpr ⟨_, hpkg, rfl⟩
    | source hpkg hdoc hnamed hcommented himports hembeds =>
      refine bind_eq_ok.mpr ⟨_, hpkg, ?_⟩
      rw [if_neg hdoc]
      refine bind_eq_ok.mpr ⟨_, hnamed, bind_eq_ok.mpr ⟨_, hcommented, bind_eq_ok.mpr ⟨_, himports, ?_⟩⟩⟩
      exact bind_eq_ok.mpr ⟨_, hembeds, rfl⟩

/-! ## Files -/

/-- A file that cannot be parsed has a problem, and still goes where it would go. -/
def parseProblems (parseError : String) : List PackageProblem := if parseError = "" then [] else [.file parseError]

/-- What a file comes to: it cannot be read, is ignored by its name, is excluded from the build, is built but no
source, or is a source. -/
inductive Judges (ctx : BuildContext) (mode : ResolveMode) (dir : String) (n : Naming) (f : FileView) :
    Outcome → Naming → Prop
  | unread {name error : String} : f.name = .ok name → f.error = .ok error → error ≠ "" →
    Judges ctx mode dir n f { name, problems := [.file error] } n
  | ignored {name parseError : String} : f.name = .ok name → f.error = .ok "" → f.parseError = .ok parseError →
    f.ignoreFile = .ok true →
    Judges ctx mode dir n f
      { name, problems := parseProblems parseError,
        listing := if isHiddenName name then none else Listing.ignored? name } n
  | excluded {name parseError : String} {tags : List String} : f.name = .ok name → f.error = .ok "" →
    f.parseError = .ok parseError → f.ignoreFile = .ok false → isBuilt ctx name f = .ok (false, tags) →
    Judges ctx mode dir n f { name, problems := parseProblems parseError, tags, listing := Listing.ignored? name } n
  | other {name parseError : String} {tags : List String} {binaryOnly : Bool} : f.name = .ok name → f.error = .ok "" →
    f.parseError = .ok parseError → f.ignoreFile = .ok false → isBuilt ctx name f = .ok (true, tags) →
    f.binaryOnly = .ok binaryOnly → Language.ofName? name ≠ some .go →
    Judges ctx mode dir n f
      { name, problems := parseProblems parseError, tags, binaryOnly,
        listing := (Language.ofName? name).map Listing.ofLanguage } n
  | source {name parseError : String} {tags : List String} {binaryOnly : Bool} {o : Outcome} {n' : Naming} :
    f.name = .ok name → f.error = .ok "" → f.parseError = .ok parseError → f.ignoreFile = .ok false →
    isBuilt ctx name f = .ok (true, tags) → f.binaryOnly = .ok binaryOnly → Language.ofName? name = some .go →
    JudgesSource ctx mode dir n f { name, problems := parseProblems parseError, tags, binaryOnly } o n' →
    Judges ctx mode dir n f o n'

theorem read_bind {α β : Type} {r : Field α} {a : α} (h : r = .ok a) (k : α → Except Failure β) :
    (r.mapError Failure.format >>= k) = k a := by
  rw [h]
  rfl

theorem judge_eq_ok {n n' : Naming} {f : FileView} {o : Outcome} :
    judge ctx mode dir n f = .ok (o, n') ↔ Judges ctx mode dir n f o n' := by
  constructor
  · intro h
    obtain ⟨name, hname, h⟩ := bind_eq_ok.mp h
    obtain ⟨error, herror, h⟩ := bind_eq_ok.mp h
    rw [mapError_eq_ok] at hname herror
    split at h
    · rename_i hne
      cases h
      exact .unread hname herror hne
    rename_i hempty
    rw [Decidable.not_not.mp hempty] at herror
    obtain ⟨parseError, hparse, h⟩ := bind_eq_ok.mp h
    obtain ⟨ignoreFile, hignore, h⟩ := bind_eq_ok.mp h
    rw [mapError_eq_ok] at hparse hignore
    cases ignoreFile with
    | true =>
      cases h
      exact .ignored hname herror hparse hignore
    | false =>
      obtain ⟨⟨built, tags⟩, hbuilt, h⟩ := bind_eq_ok.mp h
      cases built with
      | false =>
        cases h
        exact .excluded hname herror hparse hignore hbuilt
      | true =>
        obtain ⟨binaryOnly, hbinary, h⟩ := bind_eq_ok.mp h
        rw [mapError_eq_ok] at hbinary
        cases hl : Language.ofName? name with
        | none =>
          have hj : Judges ctx mode dir n f _ n :=
            .other hname herror hparse hignore hbuilt hbinary (by rw [hl]; exact nofun)
          rw [hl] at h hj
          cases h
          exact hj
        | some l =>
          cases l with
          | go =>
            rw [hl] at h
            exact .source hname herror hparse hignore hbuilt hbinary hl (judgeSource_eq_ok.mp (mapError_eq_ok.mp h))
          | _ =>
            have hj : Judges ctx mode dir n f _ n :=
            .other hname herror hparse hignore hbuilt hbinary (by rw [hl]; exact nofun)
            rw [hl] at h hj
            cases h
            exact hj
  · intro h
    cases h with
    | unread hname herror hne =>
      rw [judge, read_bind hname, read_bind herror, if_pos hne]
      rfl
    | ignored hname herror hparse hignore =>
      rw [judge, read_bind hname, read_bind herror, if_neg (not_not.mpr rfl), read_bind hparse, read_bind hignore]
      rfl
    | excluded hname herror hparse hignore hbuilt =>
      rw [judge, read_bind hname, read_bind herror, if_neg (not_not.mpr rfl), read_bind hparse, read_bind hignore,
        if_neg Bool.false_ne_true, hbuilt]
      rfl
    | @other name _ _ _ hname herror hparse hignore hbuilt hbinary hlanguage =>
      rw [judge, read_bind hname, read_bind herror, if_neg (not_not.mpr rfl), read_bind hparse, read_bind hignore,
        if_neg Bool.false_ne_true, hbuilt, hbinary]
      cases hl : Language.ofName? name with
      | none => rfl
      | some l =>
        cases l with
        | go => exact absurd hl hlanguage
        | _ => rfl
    | @source name _ _ _ _ _ hname herror hparse hignore hbuilt hbinary hlanguage hsource =>
      rw [judge, read_bind hname, read_bind herror, if_neg (not_not.mpr rfl), read_bind hparse, read_bind hignore,
        if_neg Bool.false_ne_true, hbuilt, hbinary, hlanguage]
      exact mapError_eq_ok.mpr (judgeSource_eq_ok.mpr hsource)

theorem name_of_judged {n n' : Naming} {o : Outcome} (h : Judges ctx mode dir n f o n') : f.name = .ok o.name := by
  cases h with
  | unread hname => exact hname
  | ignored hname => exact hname
  | excluded hname => exact hname
  | other hname => exact hname
  | source hname _ _ _ _ _ _ hsource =>
    cases hsource with
    | documentation => exact hname
    | source => exact hname

/-! ## Runs -/

/-- The files of a package judged one after another, each with what is known from those before it. -/
inductive JudgesAll (ctx : BuildContext) (mode : ResolveMode) (dir : String) :
    Naming → List FileView → List Outcome → Naming → Prop
  | nil (n : Naming) : JudgesAll ctx mode dir n [] [] n
  | cons {n n1 n2 : Naming} {f : FileView} {fs : List FileView} {o : Outcome} {os : List Outcome} :
    Judges ctx mode dir n f o n1 → JudgesAll ctx mode dir n1 fs os n2 → JudgesAll ctx mode dir n (f :: fs) (o :: os) n2

theorem judgeAll_eq_ok {n n' : Naming} {fs : List FileView} {os : List Outcome} :
    judgeAll ctx mode dir n fs = .ok (os, n') ↔ JudgesAll ctx mode dir n fs os n' := by
  constructor
  · intro h
    induction fs generalizing n os with
    | nil =>
      cases h
      exact .nil _
    | cons f fs ih =>
      obtain ⟨⟨o, n1⟩, hf, h⟩ := bind_eq_ok.mp h
      obtain ⟨⟨rest, n2⟩, hfs, h⟩ := bind_eq_ok.mp h
      cases h
      exact .cons (judge_eq_ok.mp hf) (ih hfs)
  · intro h
    induction h with
    | nil => rfl
    | cons hf _ ih => exact bind_eq_ok.mpr ⟨_, judge_eq_ok.mpr hf, bind_eq_ok.mpr ⟨_, ih, rfl⟩⟩

/-! ## Whether there are sources -/

/-- Whether a file would be built and says that the package has no sources. -/
def FileView.marked (ctx : BuildContext) (f : FileView) : Except Failure Bool := do
  if ¬ (← f.binaryOnly.mapError .format) then return false
  if (← f.error.mapError .format) ≠ "" then return false
  if ← f.ignoreFile.mapError .format then return false
  let name ← f.name.mapError .format
  return (← isBuilt ctx name f).1

theorem isBinaryOnly_cons (f : FileView) (fs : List FileView) :
    isBinaryOnly ctx (f :: fs) =
      f.marked ctx >>= fun marked => if marked then .ok true else isBinaryOnly ctx fs := by
  rw [isBinaryOnly]
  unfold FileView.marked
  cases f.binaryOnly with
  | error e => rfl
  | ok binaryOnly =>
    cases binaryOnly with
    | false => rfl
    | true =>
      cases f.error with
      | error e => rfl
      | ok error =>
        show (if error ≠ "" then _ else _) = (if error ≠ "" then _ else _) >>= _
        by_cases herror : error ≠ ""
        · rw [if_pos herror, if_pos herror]
          rfl
        · rw [if_neg herror, if_neg herror]
          cases f.ignoreFile with
          | error e => rfl
          | ok ignored =>
            cases ignored with
            | true => rfl
            | false =>
              cases f.name with
              | error e => rfl
              | ok name =>
                show (isBuilt ctx name f >>= _) = (isBuilt ctx name f >>= _) >>= _
                cases isBuilt ctx name f <;> rfl

/-! ## Packages -/

/-- What is answered without a look at the files. -/
def PackageView.early? (p : PackageView) (ctx : BuildContext) (mode : ResolveMode) : Option BuildPackage :=
  let bare : BuildPackage := { dir := p.srcDir, importPath := p.path }
  if p.error ≠ "" then some { bare with error := some (.package p.error) }
  else if p.srcDir = "" then
    some { bare with
      error := some (.package ("import " ++ Quoted.ofString p.path ++ ": import relative to unknown directory")) }
  else if mode.findOnly then some { bare with error := compilerProblem ctx }
  else none

theorem compilerProblem_eq (ctx : BuildContext) : compilerProblem ctx =
    if ctx.compiler = "gc" ∨ ctx.compiler = "gccgo" then none else some (.unknownCompiler ctx.compiler) := by
  unfold compilerProblem
  exact if_congr (by simp) rfl rfl

def PackageView.stub (p : PackageView) (ctx : BuildContext) : BuildPackage :=
  { dir := p.srcDir, importPath := p.path, binaryOnly := true, error := compilerProblem ctx }

/-- What a package comes to: it is answered without a look at its files, has no sources and the mode stops at that, or
is put together from a run over its files. -/
inductive Resolves (p : PackageView) (ctx : BuildContext) (mode : ResolveMode) : BuildPackage → Prop
  | early {q : BuildPackage} : p.early? ctx mode = some q → Resolves p ctx mode q
  | stub : p.early? ctx mode = none → mode.allowBinary = true → isBinaryOnly ctx p.files = .ok true →
    Resolves p ctx mode (p.stub ctx)
  | judged {os : List Outcome} {n : Naming} : p.early? ctx mode = none →
    (mode.allowBinary = true → isBinaryOnly ctx p.files = .ok false) →
    JudgesAll ctx mode p.srcDir {} p.files os n → Resolves p ctx mode (assemble ctx p os n)

variable {p : PackageView} {q : BuildPackage}

theorem PackageView.early?_eq_none_iff :
    p.early? ctx mode = none ↔ p.error = "" ∧ p.srcDir ≠ "" ∧ mode.findOnly = false := by
  unfold PackageView.early?
  by_cases herror : p.error = ""
  · by_cases hdir : p.srcDir = ""
    · simp [herror, hdir]
    · cases hfind : mode.findOnly <;> simp [herror, hdir]
  · simp [herror]

theorem binaryOnly_of_early (h : p.early? ctx mode = some q) : q.binaryOnly = false := by
  unfold PackageView.early? at h
  split at h
  · cases h; rfl
  · split at h
    · cases h; rfl
    · split at h
      · cases h; rfl
      · cases h

theorem resolve_of_early (h : p.early? ctx mode = some q) : resolve p ctx mode = .ok q := by
  unfold PackageView.early? at h
  unfold resolve
  by_cases herror : p.error ≠ ""
  · rw [if_pos herror] at h ⊢
    cases h
    rfl
  rw [if_neg herror] at h ⊢
  by_cases hdir : p.srcDir = ""
  · rw [if_pos hdir] at h ⊢
    cases h
    rfl
  rw [if_neg hdir] at h ⊢
  by_cases hfind : mode.findOnly = true
  · rw [if_pos hfind] at h ⊢
    cases h
    rfl
  · rw [if_neg hfind] at h
    cases h

theorem resolve_of_not_early (h : p.early? ctx mode = none) :
    resolve p ctx mode =
      if mode.allowBinary then
        isBinaryOnly ctx p.files >>= fun binaryOnly =>
          if binaryOnly then .ok (p.stub ctx)
          else (judgeAll ctx mode p.srcDir {} p.files).map fun r => assemble ctx p r.1 r.2
      else (judgeAll ctx mode p.srcDir {} p.files).map fun r => assemble ctx p r.1 r.2 := by
  obtain ⟨herror, hdir, hfind⟩ := PackageView.early?_eq_none_iff.mp h
  unfold resolve
  rw [if_neg (not_not.mpr herror), if_neg hdir, hfind]
  rfl

/-- These are the answers there are. -/
theorem resolves_iff : resolve p ctx mode = .ok q ↔ Resolves p ctx mode q := by
  constructor
  · intro h
    cases hearly : p.early? ctx mode with
    | some q' =>
      rw [resolve_of_early hearly] at h
      cases h
      exact .early hearly
    | none =>
      rw [resolve_of_not_early hearly] at h
      by_cases hallow : mode.allowBinary = true
      · rw [if_pos hallow] at h
        obtain ⟨binaryOnly, hbinary, h⟩ := bind_eq_ok.mp h
        cases binaryOnly with
        | true =>
          cases h
          exact .stub hearly hallow hbinary
        | false =>
          obtain ⟨⟨os, n⟩, hall, rfl⟩ := map_eq_ok.mp h
          exact .judged hearly (fun _ => hbinary) (judgeAll_eq_ok.mp hall)
      · rw [if_neg hallow] at h
        obtain ⟨⟨os, n⟩, hall, rfl⟩ := map_eq_ok.mp h
        exact .judged hearly (fun h => absurd h hallow) (judgeAll_eq_ok.mp hall)
  · intro h
    cases h with
    | early hearly => exact resolve_of_early hearly
    | stub hearly hallow hbinary =>
      rw [resolve_of_not_early hearly, if_pos hallow, hbinary]
      rfl
    | @judged os n hearly hbinary hall =>
      rw [resolve_of_not_early hearly, judgeAll_eq_ok.mpr hall]
      by_cases hallow : mode.allowBinary = true
      · rw [if_pos hallow, hbinary hallow]
        rfl
      · rw [if_neg hallow]
        rfl

/-- A package is answered without a look at its files or put together from a run over them. -/
theorem resolve_eq_ok (hmode : mode.allowBinary = false) :
    resolve p ctx mode = .ok q ↔
      p.early? ctx mode = some q ∨
      p.early? ctx mode = none ∧ ∃ os n, JudgesAll ctx mode p.srcDir {} p.files os n ∧ q = assemble ctx p os n := by
  rw [resolves_iff]
  constructor
  · intro h
    cases h with
    | early hearly => exact Or.inl hearly
    | stub _ hallow => rw [hmode] at hallow; cases hallow
    | judged hearly _ hall => exact Or.inr ⟨hearly, _, _, hall, rfl⟩
  · rintro (hearly | ⟨hearly, os, n, hall, rfl⟩)
    · exact .early hearly
    · exact .judged hearly (fun hallow => by rw [hmode] at hallow; cases hallow) hall

structure ReachesFiles (p : PackageView) (ctx : BuildContext) (mode : ResolveMode) : Prop where
  error : p.error = ""
  srcDir : p.srcDir ≠ ""
  findOnly : mode.findOnly = false
  allowBinary : mode.allowBinary = true → isBinaryOnly ctx p.files ≠ .ok true

theorem ReachesFiles.early?_eq_none (hp : ReachesFiles p ctx mode) : p.early? ctx mode = none :=
  PackageView.early?_eq_none_iff.mpr ⟨hp.error, hp.srcDir, hp.findOnly⟩

/-- A package that is resolved down to its files is put together from a run over them. -/
theorem judgesAll_of_resolve (hp : ReachesFiles p ctx mode) (h : resolve p ctx mode = .ok q) :
    ∃ os n, JudgesAll ctx mode p.srcDir {} p.files os n ∧ q = assemble ctx p os n := by
  cases resolves_iff.mp h with
  | early hearly =>
    rw [hp.early?_eq_none] at hearly
    cases hearly
  | stub _ hallow hbinary => exact absurd hbinary (hp.allowBinary hallow)
  | judged _ _ hall => exact ⟨_, _, hall, rfl⟩

end PackageIndex
