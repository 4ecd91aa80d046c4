/-
  PackageIndex.Proofs.Resolve.Reports — what is reported of a package, and how it is told.

  The reports are said here without a state: a source is held against the sources before it, the
  first of which to name a package or to state an import path is the one that counts.
  - `PackageView.reports`: all reports, file by file.
  - `meet_known`, `meetCommentOf_known`: what is known of a package is what its sources said first,
    so each source finds the same wrong (`known_of_judges`), and so do all files
    (`reports_of_judgesAll`).
  - `resolve_reports`: the files with a report are listed once each, and the first report is the
    problem of the package.
-/

import PackageIndex.Proofs.Resolve.Contributing
import PackageIndex.Proofs.Resolve.Naming

namespace PackageIndex

open Fallible

variable {ctx : BuildContext} {mode : ResolveMode} {dir : String}

/-! ## Sources in their order -/

structure BuiltSource where
  file : String
  pkg : String
  /-- The line and the text of its import comment, where there is one that is asked for. -/
  comment : Option (UInt32 × String)
  imports : List Import

namespace BuiltSource

/-- The package that the file is of; a test from outside is of the one that it tests. -/
def package (s : BuiltSource) : String :=
  if isTestName s.file && hasEnding "_test" s.pkg then
    String.ofList (s.pkg.toList.take (s.pkg.toList.length - "_test".length))
  else s.pkg

def unquoted? (quoted : String) : Option String := (Source.literalText? quoted.toList).map String.ofList

/-- The import path that the file states for its package, if it states one that can be read. -/
def stated (s : BuiltSource) : String := (s.comment.bind fun c => unquoted? c.2).getD ""

def first? (said : BuiltSource → String) (earlier : List BuiltSource) : Option BuiltSource :=
  earlier.find? fun s => said s ≠ ""

/-- A package name that differs from the one resolved so far. A test of a package that is itself named as a test
from outside would be is one from inside. -/
def nameReports (dir : String) (earlier : List BuiltSource) (s : BuiltSource) : List PackageProblem :=
  match first? package earlier with
  | none => []
  | some first =>
    if s.pkg = first.package ∨ s.package = first.package then []
    else [.multiplePackages dir (first.package, s.package) (first.file, s.file)]

/-- An import comment that cannot be unquoted or differs from the first one. -/
def commentReports (dir : String) (earlier : List BuiltSource) (s : BuiltSource) : List PackageProblem :=
  match s.comment with
  | none => []
  | some (line, quoted) =>
    match unquoted? quoted, first? stated earlier with
    | none, _ => [.file (s.file ++ ":" ++ toString line ++ ": cannot parse import comment")]
    | some _, none => []
    | some text, some first =>
      if text = first.stated then []
      else
        [.file ("found import comments " ++ Quoted.ofString first.stated ++ " (" ++ first.file ++ ") and " ++
          Quoted.ofString text ++ " (" ++ s.file ++ ") in " ++ dir)]

def cgoReport? (ctx : BuildContext) (dir : String) (s : BuiltSource) (i : Import) : Option PackageProblem :=
  if isTestName s.file then some (.file ("use of cgo in test " ++ s.file ++ " not supported"))
  else if i.doc = "" then none
  else (Cgo.Flags.ofPreamble ctx dir i.doc).2.map fun e => .file (e.message s.file)

def reports (ctx : BuildContext) (dir : String) (earlier : List BuiltSource) (s : BuiltSource) : List PackageProblem :=
  s.nameReports dir earlier ++ s.commentReports dir earlier ++
    (s.imports.filter (·.path = "C")).filterMap (s.cgoReport? ctx dir)

end BuiltSource

def FileView.askedComment (mode : ResolveMode) (f : FileView) : Field (Option (UInt32 × String)) := do
  if mode.importComment then
    let line ← f.importCommentLine
    if line = 0 then return none else return some (line, ← f.importComment)
  else return none

def FileView.source? (ctx : BuildContext) (mode : ResolveMode) (f : FileView) : Option BuiltSource := do
  let file ← f.name.toOption
  let error ← f.error.toOption
  let ignored ← f.ignoreFile.toOption
  let (built, _) ← (isBuilt ctx file f).toOption
  let pkg ← f.pkgName.toOption
  let comment ← (f.askedComment mode).toOption
  let imports ← f.imports.toOption
  if error = "" ∧ ¬ ignored ∧ built ∧ Language.ofName? file = some .go ∧ pkg ≠ documentationName then
    some { file, pkg, comment, imports }
  else none

/-- What is wrong with the file as a whole: it could not be read or parsed. -/
def FileView.ownReports (f : FileView) : List PackageProblem :=
  let error := f.error.toOption.getD ""
  let parseError := f.parseError.toOption.getD ""
  if error ≠ "" then [.file error] else if parseError ≠ "" then [.file parseError] else []

def reportsFrom (ctx : BuildContext) (mode : ResolveMode) (dir : String) (earlier : List BuiltSource) :
    List FileView → List (String × PackageProblem)
  | [] => []
  | f :: fs =>
    let source := (f.source? ctx mode).toList
    (f.ownReports ++ source.flatMap (·.reports ctx dir earlier)).map
        (fun report => (f.name.toOption.getD "", report)) ++
      reportsFrom ctx mode dir (earlier ++ source) fs

def PackageView.reports (p : PackageView) (ctx : BuildContext) (mode : ResolveMode) : List (String × PackageProblem) :=
  reportsFrom ctx mode p.srcDir [] p.files

namespace BuiltSource

/-! ## What is known from earlier sources -/

variable {said : BuiltSource → String} {earlier : List BuiltSource} {s : BuiltSource} {n : Naming}

theorem said_of_first? {r : BuiltSource} (h : first? said earlier = some r) : said r ≠ "" := by
  simpa using List.find?_some h

theorem first?_concat (said : BuiltSource → String) (earlier : List BuiltSource) (s : BuiltSource) :
    first? said (earlier ++ [s]) = (first? said earlier).or (if said s = "" then none else some s) := by
  unfold first?
  rw [List.find?_append]
  by_cases hsaid : said s = "" <;> simp [hsaid]

/-- `text` is what was said first, and `file` is where; it is empty while nothing was said. -/
def FirstSaid (said : BuiltSource → String) (earlier : List BuiltSource) (text file : String) : Prop :=
  first? said earlier = none ∧ text = "" ∨ ∃ r, first? said earlier = some r ∧ text = said r ∧ file = r.file

/-- What was said stays, and what says nothing adds nothing. -/
theorem FirstSaid.keep {text file : String} (h : FirstSaid said earlier text file) (hs : text ≠ "" ∨ said s = "") :
    FirstSaid said (earlier ++ [s]) text file := by
  unfold FirstSaid
  rw [first?_concat]
  rcases h with ⟨hfirst, htext⟩ | ⟨r, hfirst, hsame⟩
  · have hsaid : said s = "" := hs.resolve_left fun h => h htext
    rw [hfirst, Option.none_or, if_pos hsaid]
    exact Or.inl ⟨rfl, htext⟩
  · rw [hfirst, Option.some_or]
    exact Or.inr ⟨r, rfl, hsame⟩

/-- Where nothing was said, the next source may be the first. -/
theorem firstSaid_next (h : first? said earlier = none) (s : BuiltSource) :
    FirstSaid said (earlier ++ [s]) (said s) s.file := by
  unfold FirstSaid
  rw [first?_concat, h, Option.none_or]
  by_cases hsaid : said s = ""
  · rw [if_pos hsaid]
    exact Or.inl ⟨rfl, hsaid⟩
  · rw [if_neg hsaid]
    exact Or.inr ⟨s, rfl, rfl, rfl⟩

/-- What is known of a package is what its sources up to now said first. -/
structure Known (n : Naming) (earlier : List BuiltSource) : Prop where
  name : FirstSaid package earlier n.name n.namedBy
  comment : FirstSaid stated earlier n.importComment n.commentedBy

/-! ### Names -/

/-- The package that a source is held to be of. -/
theorem package_of_ne (h : n.name ≠ s.pkg) : (testedPackage? n s.file s.pkg).getD s.pkg = s.package := by
  unfold testedPackage? package
  simp only [h, ne_eq, not_false_eq_true, decide_true, Bool.and_true]
  split <;> rfl

theorem pkg_of_eq (h : n.name = s.pkg) : (testedPackage? n s.file s.pkg).getD s.pkg = s.pkg := by
  unfold testedPackage?
  simp [h]

theorem package_of_unnamed (h : n.name = "") : (testedPackage? n s.file s.pkg).getD s.pkg = s.package := by
  by_cases hpkg : n.name = s.pkg
  · rw [pkg_of_eq hpkg]
    unfold package
    rw [← hpkg, h, show hasEnding "_test" "" = false by decide, Bool.and_false]
    rfl
  · exact package_of_ne hpkg

/-- The package name of a source is held against the one resolved so far. -/
theorem meet_known (h : FirstSaid package earlier n.name n.namedBy) (dir : String) (s : BuiltSource) {m : Naming}
    {problems : List PackageProblem}
    (hmet : n.meet dir s.file ((testedPackage? n s.file s.pkg).getD s.pkg) = (m, problems)) :
    FirstSaid package (earlier ++ [s]) m.name m.namedBy ∧ problems = s.nameReports dir earlier := by
  unfold nameReports
  rcases h with ⟨hfirst, hname⟩ | ⟨r, hfirst, hname, hfile⟩
  · rw [package_of_unnamed hname, Naming.meet_of_unnamed hname] at hmet
    cases hmet
    rw [hfirst]
    exact ⟨firstSaid_next hfirst s, rfl⟩
  · have hnamed : n.name ≠ "" := hname ▸ said_of_first? hfirst
    rw [Naming.meet_of_named hnamed] at hmet
    cases hmet
    refine ⟨FirstSaid.keep (Or.inr ⟨r, hfirst, hname, hfile⟩) (Or.inl hnamed), ?_⟩
    rw [hfirst]
    show _ = if s.pkg = r.package ∨ s.package = r.package then [] else _
    rw [← hname, ← hfile]
    by_cases hpkg : n.name = s.pkg
    · rw [pkg_of_eq hpkg, if_pos hpkg.symm, if_pos (Or.inl hpkg.symm)]
    · have hneither : s.pkg = n.name ∨ s.package = n.name ↔ s.package = n.name := or_iff_right (Ne.symm hpkg)
      rw [package_of_ne hpkg, if_congr hneither rfl rfl]

/-! ### Import comments -/

/-- The import comment of a source is held against the first one. -/
theorem meetComment_known (h : FirstSaid stated earlier n.importComment n.commentedBy) {line : UInt32} {quoted : String}
    (hs : s.comment = some (line, quoted)) (dir : String) {m : Naming} {problems : List PackageProblem}
    (hmet : n.meetComment dir s.file quoted line = (m, problems)) :
    FirstSaid stated (earlier ++ [s]) m.importComment m.commentedBy ∧ problems = s.commentReports dir earlier := by
  have hstated : s.stated = (unquoted? quoted).getD "" := by
    unfold stated
    rw [hs]
    rfl
  unfold Naming.meetComment at hmet
  rw [← unquoted?] at hmet
  cases htext : unquoted? quoted with
  | none =>
    rw [htext] at hmet hstated
    cases hmet
    refine ⟨h.keep (Or.inr hstated), ?_⟩
    simp only [commentReports, hs, htext]
  | some text =>
    rw [htext] at hmet hstated
    rcases h with ⟨hfirst, hnone⟩ | ⟨r, hfirst, hcomment, hfile⟩
    · simp only [hnone, if_true] at hmet
      cases hmet
      have hnext := firstSaid_next hfirst s
      rw [hstated] at hnext
      refine ⟨hnext, ?_⟩
      simp only [commentReports, hs, htext, hfirst]
    · have hknown : n.importComment ≠ "" := hcomment ▸ said_of_first? hfirst
      have hkept : FirstSaid stated (earlier ++ [s]) n.importComment n.commentedBy :=
        FirstSaid.keep (Or.inr ⟨r, hfirst, hcomment, hfile⟩) (Or.inl hknown)
      simp only [if_neg hknown] at hmet
      simp only [commentReports, hs, htext, hfirst]
      rw [← hcomment, ← hfile]
      by_cases hsame : text = n.importComment
      · rw [if_pos hsame] at hmet ⊢
        cases hmet
        exact ⟨hkept, rfl⟩
      · rw [if_neg hsame] at hmet ⊢
        cases hmet
        exact ⟨hkept, rfl⟩

theorem meetCommentOf_eq (mode : ResolveMode) (dir file : String) (f : FileView) (n : Naming) :
    meetCommentOf mode dir file f n = (f.askedComment mode).map fun
      | none => (n, [])
      | some (line, quoted) => n.meetComment dir file quoted line := by
  unfold meetCommentOf FileView.askedComment
  by_cases hmode : mode.importComment = true
  · rw [if_pos hmode, if_pos hmode]
    cases f.importCommentLine with
    | error e => rfl
    | ok line =>
      show (if line = 0 then _ else _) = Except.map _ (if line = 0 then _ else _)
      by_cases hline : line = 0
      · rw [if_pos hline, if_pos hline]
        rfl
      · rw [if_neg hline, if_neg hline]
        cases f.importComment <;> rfl
  · rw [if_neg hmode, if_neg hmode]
    rfl

theorem meetCommentOf_known (h : FirstSaid stated earlier n.importComment n.commentedBy) {f : FileView}
    {m : Naming} {problems : List PackageProblem} (hmet : meetCommentOf mode dir s.file f n = .ok (m, problems))
    (hs : f.askedComment mode = .ok s.comment) :
    FirstSaid stated (earlier ++ [s]) m.importComment m.commentedBy ∧ problems = s.commentReports dir earlier := by
  rw [meetCommentOf_eq, hs] at hmet
  cases hcomment : s.comment with
  | none =>
    rw [hcomment] at hmet
    cases hmet
    unfold commentReports
    rw [hcomment]
    refine ⟨h.keep (Or.inr ?_), rfl⟩
    unfold stated
    rw [hcomment]
    rfl
  | some c =>
    rw [hcomment] at hmet
    exact meetComment_known h hcomment dir (Except.ok.inj hmet)

/-! ### Imports of "C" -/

theorem cgoOf_problems (ctx : BuildContext) (dir : String) (s : BuiltSource) :
    (cgoOf ctx dir s.file s.imports).2 = (s.imports.filter (·.path = "C")).filterMap (s.cgoReport? ctx dir) := by
  have huses : s.imports.filter (·.path == "C") = s.imports.filter (·.path = "C") := rfl
  unfold cgoOf cgoReport?
  rw [huses]
  by_cases htest : isTestName s.file = true
  · simp only [htest, if_true]
    rw [List.filterMap_eq_map']
  · simp only [htest, Bool.false_eq_true, if_false]
    rw [List.filterMap_map, List.filterMap_filter]
    refine List.filterMap_congr fun i _ => ?_
    by_cases hdoc : i.doc = "" <;> simp [hdoc]

end BuiltSource

/-! ## Files -/

open BuiltSource

structure IsSource (ctx : BuildContext) (mode : ResolveMode) (f : FileView) (s : BuiltSource) : Prop where
  file : f.name = .ok s.file
  error : f.error = .ok ""
  ignoreFile : f.ignoreFile = .ok false
  built : ∃ tags, isBuilt ctx s.file f = .ok (true, tags)
  language : Language.ofName? s.file = some .go
  pkg : f.pkgName = .ok s.pkg
  notDocumentation : s.pkg ≠ documentationName
  comment : f.askedComment mode = .ok s.comment
  imports : f.imports = .ok s.imports

theorem source?_eq_some {f : FileView} {s : BuiltSource} : f.source? ctx mode = some s ↔ IsSource ctx mode f s := by
  unfold FileView.source?
  simp only [Option.bind_eq_bind, Option.bind_eq_some_iff, toOption_eq_some]
  constructor
  · rintro ⟨file, hfile, error, herror, ignored, hignored, ⟨built, tags⟩, hbuilt, pkg, hpkg, comment, hcomment, imports,
      himports, h⟩
    split at h
    · rename_i hcond
      cases h
      obtain ⟨rfl, hnot, rfl, hlanguage, hdoc⟩ := hcond
      rw [Bool.not_eq_true] at hnot
      subst hnot
      exact ⟨hfile, herror, hignored, ⟨tags, hbuilt⟩, hlanguage, hpkg, hdoc, hcomment, himports⟩
    · cases h
  · intro h
    obtain ⟨tags, hbuilt⟩ := h.built
    refine ⟨_, h.file, _, h.error, _, h.ignoreFile, _, hbuilt, _, h.pkg, _, h.comment, _, h.imports, ?_⟩
    exact if_pos ⟨rfl, Bool.false_ne_true, rfl, h.language, h.notDocumentation⟩

/-- A source that is built finds what is known of the package from those before it. -/
theorem known_of_judgesSource {n n' : Naming} {f : FileView} {o o' : Outcome} {earlier : List BuiltSource}
    {s : BuiltSource} (hn : Known n earlier) (hs : IsSource ctx mode f s) (hname : o.name = s.file)
    (h : JudgesSource ctx mode dir n f o o' n') :
    Known n' (earlier ++ [s]) ∧ o'.problems = o.problems ++ s.reports ctx dir earlier := by
  cases h with
  | documentation hpkg =>
    rw [hs.pkg] at hpkg
    exact absurd (Except.ok.inj hpkg) hs.notDocumentation
  | @source pkg named _ commented imports embeds hpkg hdoc hnamed hcommented himports hembeds =>
    rw [hs.pkg] at hpkg
    rw [hs.imports] at himports
    cases hpkg
    cases himports
    rw [hname] at hnamed hcommented ⊢
    generalize hmet : n.meet dir s.file ((testedPackage? n s.file s.pkg).getD s.pkg) = met at hnamed ⊢
    obtain ⟨m, problems⟩ := met
    obtain ⟨hnames, hnamereports⟩ := meet_known hn.name dir s hmet
    have hcomment : FirstSaid stated earlier named.importComment named.commentedBy := by
      have hkept := n.comment_of_meet dir s.file ((testedPackage? n s.file s.pkg).getD s.pkg)
      rw [hmet] at hkept
      rw [eq_of_meetSynopsis hnamed, hkept.1, hkept.2]
      exact hn.comment
    obtain ⟨hcomments, hcommentreports⟩ := meetCommentOf_known hcomment hcommented hs.comment
    have hend : n'.uncommented = { m with doc := named.doc }.uncommented := by
      rw [uncommented_of_meetCommentOf hcommented, eq_of_meetSynopsis hnamed]
    obtain ⟨hname, hnamedBy⟩ : n'.name = m.name ∧ n'.namedBy = m.namedBy := by
      exact ⟨congrArg (·.name) hend, congrArg (·.namedBy) hend⟩
    refine ⟨⟨hname ▸ hnamedBy ▸ hnames, hcomments⟩, ?_⟩
    show o.problems ++ problems ++ commented ++ (cgoOf ctx dir s.file s.imports).2 = _
    rw [hnamereports, hcommentreports, cgoOf_problems]
    unfold reports
    simp only [List.append_assoc]

theorem source?_eq_none {f : FileView} (h : ∀ s, ¬ IsSource ctx mode f s) : f.source? ctx mode = none :=
  Option.eq_none_iff_forall_ne_some.mpr fun s hs => h s (source?_eq_some.mp hs)

theorem ownReports_of_read {f : FileView} {parseError : String} (herror : f.error = .ok "")
    (hparse : f.parseError = .ok parseError) : f.ownReports = parseProblems parseError := by
  unfold FileView.ownReports parseProblems
  rw [herror, hparse]
  by_cases hparsed : parseError = "" <;> simp [Except.toOption, hparsed]

/-- A file finds what is known of the package from the sources before it. -/
theorem known_of_judges {n n' : Naming} {f : FileView} {o : Outcome} {earlier : List BuiltSource}
    (hn : Known n earlier) (h : Judges ctx mode dir n f o n') :
    Known n' (earlier ++ (f.source? ctx mode).toList) ∧
      o.problems = f.ownReports ++ (f.source? ctx mode).toList.flatMap (·.reports ctx dir earlier) := by
  have hother (o : Outcome) (hnone : ∀ s, ¬ IsSource ctx mode f s) (hown : f.ownReports = o.problems) :
      Known n (earlier ++ (f.source? ctx mode).toList) ∧
        o.problems = f.ownReports ++ (f.source? ctx mode).toList.flatMap (·.reports ctx dir earlier) := by
    rw [source?_eq_none hnone, hown]
    simpa using hn
  cases h with
  | unread hname herror hne =>
    apply hother
    · intro s hs
      rw [hs.error] at herror
      exact hne (Except.ok.inj herror).symm
    · unfold FileView.ownReports
      rw [herror]
      exact if_pos hne
  | ignored hname herror hparse hignore =>
    apply hother
    · intro s hs
      rw [hs.ignoreFile] at hignore
      cases hignore
    · exact ownReports_of_read herror hparse
  | excluded hname herror hparse hignore hbuilt =>
    apply hother
    · intro s hs
      obtain ⟨tags, hs'⟩ := hs.built
      rw [hs.file] at hname
      cases hname
      rw [hs'] at hbuilt
      cases hbuilt
    · exact ownReports_of_read herror hparse
  | other hname herror hparse hignore hbuilt hbinary hlanguage =>
    apply hother
    · intro s hs
      rw [hs.file] at hname
      cases hname
      exact hlanguage hs.language
    · exact ownReports_of_read herror hparse
  | @source name parseError tags binaryOnly _ _ hname herror hparse hignore hbuilt hbinary hlanguage hsource =>
    have hsource' := hsource
    cases hsource' with
    | documentation hpkg =>
      apply hother
      · intro s hs
        rw [hs.pkg] at hpkg
        exact hs.notDocumentation (Except.ok.inj hpkg)
      · exact ownReports_of_read herror hparse
    | @source pkg named _ commented imports embeds hpkg hdoc hnamed hcommented himports hembeds =>
      rw [meetCommentOf_eq] at hcommented
      obtain ⟨comment, hcomment, -⟩ := map_eq_ok.mp hcommented
      have hs : IsSource ctx mode f ⟨name, pkg, comment, imports⟩ :=
        ⟨hname, herror, hignore, ⟨tags, hbuilt⟩, hlanguage, hpkg, hdoc, hcomment, himports⟩
      obtain ⟨hknown, hproblems⟩ := known_of_judgesSource hn hs rfl hsource
      rw [source?_eq_some.mpr hs, ownReports_of_read herror hparse]
      refine ⟨hknown, ?_⟩
      rw [hproblems]
      simp

theorem reports_of_judgesAll {n n' : Naming} {fs : List FileView} {os : List Outcome} {earlier : List BuiltSource}
    (hn : Known n earlier) (h : JudgesAll ctx mode dir n fs os n') :
    (os.flatMap fun o => o.problems.map fun problem => (o.name, problem)) = reportsFrom ctx mode dir earlier fs := by
  induction h generalizing earlier with
  | nil => rfl
  | @cons _ _ _ f fs o os hf _ ih =>
    obtain ⟨hknown, hproblems⟩ := known_of_judges hn hf
    have hname : f.name.toOption.getD "" = o.name := by rw [name_of_judged hf]; rfl
    rw [List.flatMap_cons, ih hknown, hproblems]
    rw [reportsFrom, hname]

/-! ## How reports are told -/

theorem eraseDups_replicate_append {α : Type} [BEq α] [LawfulBEq α] (a : α) (k : Nat) (l : List α) :
    (List.replicate (k + 1) a ++ l).eraseDups = (a :: l).eraseDups := by
  have hnone : (List.replicate k a).filter (fun b => !b == a) = [] := by
    rw [List.filter_eq_nil_iff]
    intro b hb
    simp [List.eq_of_mem_replicate hb]
  rw [List.replicate_succ, List.cons_append, List.eraseDups_cons, List.eraseDups_cons, List.filter_append, hnone,
    List.nil_append]

/-- The names of the files with a problem, once for each problem. -/
theorem problemFiles_eq (os : List Outcome) :
    problemFiles os = (os.flatMap fun o => o.problems.map fun _ => o.name).eraseDups := by
  -- a name that has been met is left out of what follows, so the rest is compared under a filter
  have hkept (keep : String → Bool) : (((os.filter (·.problems ≠ [])).map (·.name)).filter keep).eraseDups =
      ((os.flatMap fun o => o.problems.map fun _ => o.name).filter keep).eraseDups := by
    induction os generalizing keep with
    | nil => rfl
    | cons o os ih =>
      rw [List.flatMap_cons, List.filter_append, List.map_const']
      cases hproblems : o.problems with
      | nil =>
        rw [List.filter_cons_of_neg (by simp [hproblems]), ih]
        rfl
      | cons problem rest =>
        rw [List.filter_cons_of_pos (by simp [hproblems]), List.map_cons, List.length_cons]
        by_cases hname : keep o.name = true
        · rw [List.filter_cons_of_pos hname, List.filter_replicate_of_pos hname, eraseDups_replicate_append,
            List.eraseDups_cons, List.eraseDups_cons, List.filter_filter, List.filter_filter, ih]
        · rw [List.filter_cons_of_neg hname, List.filter_replicate_of_neg hname, ih]
          rfl
  have hall := hkept fun _ => true
  rw [List.filter_true, List.filter_true] at hall
  exact hall

theorem error_of_assemble (p : PackageView) (os : List Outcome) (n : Naming) :
    (assemble ctx p os n).error = match (os.flatMap (·.problems)).head? with
      | some problem => some problem
      | none =>
        if filesIn .go os = [] ∧ filesIn .cgo os = [] ∧ filesIn .testGo os = [] ∧ filesIn .xtestGo os = [] then
          some (.noSources p.srcDir)
        else compilerProblem ctx := by
  unfold assemble BuildPackage.hasSources
  dsimp only
  cases (os.flatMap (·.problems)).head? with
  | some problem => rfl
  | none =>
    show (if _ then compilerProblem ctx else some (.noSources p.srcDir)) = _
    by_cases hnone : filesIn .go os = [] ∧ filesIn .cgo os = [] ∧ filesIn .testGo os = [] ∧ filesIn .xtestGo os = []
    · rw [if_pos hnone, if_neg]
      simp [hnone]
    · rw [if_neg hnone, if_pos]
      rw [Bool.not_eq_true', ← Bool.not_eq_true]
      simpa [and_assoc] using hnone

/-! ## Packages -/

/-- The reports of a package, in the order of its files, say which of them have a problem and which problem is told.
A file that cannot be read adds nothing else. -/
theorem resolve_reports {p : PackageView} {q : BuildPackage} (hp : ReachesFiles p ctx mode)
    (h : resolve p ctx mode = .ok q) :
    q.invalidGoFiles = ((p.reports ctx mode).map (·.1)).eraseDups ∧
    q.error = (match (p.reports ctx mode).head? with
      | some (_, report) => some report
      | none =>
        if q.goFiles = [] ∧ q.cgoFiles = [] ∧ q.testGoFiles = [] ∧ q.xtestGoFiles = [] then some (.noSources p.srcDir)
        else if ctx.compiler = "gc" ∨ ctx.compiler = "gccgo" then none
        else some (.unknownCompiler ctx.compiler)) ∧
    ∀ files, WithoutUnread p.files files →
      ∃ r, resolve { p with files } ctx mode = .ok r ∧ r.unreported = q.unreported := by
  obtain ⟨os, n, hall, rfl⟩ := judgesAll_of_resolve hp h
  have hreports : p.reports ctx mode = os.flatMap fun o => o.problems.map fun problem => (o.name, problem) :=
    (reports_of_judgesAll ⟨Or.inl ⟨rfl, rfl⟩, Or.inl ⟨rfl, rfl⟩⟩ hall).symm
  have hnames : (p.reports ctx mode).map (·.1) = os.flatMap fun o => o.problems.map fun _ => o.name := by
    rw [hreports, List.map_flatMap]
    simp only [List.map_map, Function.comp_def]
  have hproblems : (p.reports ctx mode).map (·.2) = os.flatMap (·.problems) := by
    rw [hreports, List.map_flatMap]
    simp [Function.comp_def]
  refine ⟨?_, ?_, fun files hfiles => resolve_without hfiles h⟩
  · rw [hnames]
    exact problemFiles_eq os
  · rw [error_of_assemble, ← hproblems, List.head?_map, compilerProblem_eq]
    cases (p.reports ctx mode).head? <;> rfl

def sampleReported : PackageRecord where
  path := "m"
  srcDir := "/m"
  files := [{ name := "a.go", error := "permission denied" }, { name := "b.go", pkgName := "m" },
    { name := "c.go", pkgName := "n", parseError := "expected declaration" },
    { name := "d_test.go", pkgName := "m_test", imports := [{ path := "C" }] }]

theorem sampleReported_resolve_reports : ∃ q r, resolve sampleReported.view .host {} = .ok q ∧
    sampleReported.view.reports .host {} =
      [("a.go", .file "permission denied"), ("c.go", .file "expected declaration"),
        ("c.go", .multiplePackages "/m" ("m", "n") ("b.go", "c.go")),
        ("d_test.go", .file "use of cgo in test d_test.go not supported")] ∧
    q.invalidGoFiles = ["a.go", "c.go", "d_test.go"] ∧ q.error = some (.file "permission denied") ∧
    resolve { sampleReported with files := sampleReported.files.tail }.view .host {} = .ok r ∧
    r.unreported = q.unreported := by
  have hok : (resolve sampleReported.view .host {}).isOk = true := by decide +kernel
  have hreports : sampleReported.view.reports .host {} =
      [("a.go", .file "permission denied"), ("c.go", .file "expected declaration"),
        ("c.go", .multiplePackages "/m" ("m", "n") ("b.go", "c.go")),
        ("d_test.go", .file "use of cgo in test d_test.go not supported")] := by decide +kernel
  have hunread : WithoutUnread sampleReported.view.files (sampleReported.files.tail.map FileRecord.view) :=
    @WithoutUnread.drop _ _ _ "permission denied" rfl (by decide) (.keep _ (.keep _ (.keep _ .nil)))
  have hreaches : ReachesFiles sampleReported.view .host {} := ⟨rfl, by decide, rfl, nofun⟩
  cases hq : resolve sampleReported.view .host {} with
  | error e => rw [hq] at hok; cases hok
  | ok q =>
    obtain ⟨hinvalid, herror, hwithout⟩ := resolve_reports hreaches hq
    obtain ⟨r, hr, hsame⟩ := hwithout _ hunread
    rw [hreports] at hinvalid herror
    exact ⟨q, r, rfl, hreports, hinvalid, herror, hr, hsame⟩

end PackageIndex
