/-
  PackageIndex.Resolve.Outcome — where one file of a package goes.

  A file is judged by its name, then by its constraints, then by its language, and a
  source also by what it declares. What is known of the package so far is its `Naming`:
  the first name met is the package's, and later files are held against it. `judge` reads
  a file no further than its outcome asks for.
-/

import PackageIndex.Context.FileName
import PackageIndex.Record.Extension
import PackageIndex.Record.View
import PackageIndex.Resolve.Mode
import PackageIndex.Resolve.Package
import PackageIndex.Source.Literal

namespace PackageIndex

/-! ## The lists of a package -/

inductive Listing where
  | go
  | cgo
  | ignoredGo
  | ignoredOther
  | c
  | cxx
  | m
  | h
  | f
  | s
  | swig
  | swigCxx
  | syso
  | testGo
  | xtestGo
  /-- Assembly that builds if some file uses cgo. -/
  | deferred
  deriving DecidableEq, Repr

def Listing.ignored? (name : String) : Option Listing :=
  (Language.ofName? name).map fun l => if l = .go then .ignoredGo else .ignoredOther

def Listing.ofLanguage : Language → Listing
  | .go => .go
  | .c => .c
  | .cxx => .cxx
  | .m => .m
  | .h => .h
  | .fortran => .f
  | .assembly => .s
  | .preprocessed => .deferred
  | .swig => .swig
  | .swigCxx => .swigCxx
  | .object => .syso

structure Outcome where
  name : String
  listing : Option Listing := none
  problems : List PackageProblem := []
  /-- The tags asked about. -/
  tags : List String := []
  binaryOnly : Bool := false
  flags : Cgo.Flags := {}
  imports : List Import := []
  embeds : List Embed := []
  deriving DecidableEq, Inhabited

/-! ## What is known of the package -/

structure Naming where
  name : String := ""
  /-- The file that gave the name. -/
  namedBy : String := ""
  doc : String := ""
  importComment : String := ""
  commentedBy : String := ""
  deriving DecidableEq, Repr, Inhabited

namespace Naming

/-- Holds the package name of a file against the one known. -/
def meet (n : Naming) (dir file pkg : String) : Naming × List PackageProblem :=
  if n.name = "" then ({ n with name := pkg, namedBy := file }, [])
  else if pkg = n.name then (n, [])
  else (n, [.multiplePackages dir (n.name, pkg) (n.namedBy, file)])

def meetComment (n : Naming) (dir file quoted : String) (line : UInt32) : Naming × List PackageProblem :=
  match (Source.literalText? quoted.toList).map String.ofList with
  | none => (n, [.file (file ++ ":" ++ toString line ++ ": cannot parse import comment")])
  | some comment =>
    if n.importComment = "" then ({ n with importComment := comment, commentedBy := file }, [])
    else if comment = n.importComment then (n, [])
    else
      (n, [.file ("found import comments " ++ Quoted.ofString n.importComment ++ " (" ++ n.commentedBy ++ ") and " ++
        Quoted.ofString comment ++ " (" ++ file ++ ") in " ++ dir)])

end Naming

/-! ## Whether a file is built -/

/-- Evaluates every line, so that all their tags are asked about. A line that cannot be read
is passed over. -/
def plusLinesHold (ctx : BuildContext) : List String → BuildContext.Asking Bool
  | [] => return true
  | line :: lines => do
    let held ← match Constraint.ofLine line.toList with
      | .ok e => e.eval ctx.ask
      | .error _ => return (← plusLinesHold ctx lines)
    return (← plusLinesHold ctx lines) && held

/-- Whether the constraints of a file hold. Legacy lines count where there is no other. -/
def constraintsHold (ctx : BuildContext) (name : String) (f : FileView) :
    Except Failure (BuildContext.Asking Bool) := do
  let goBuild ← f.goBuild.mapError .format
  if goBuild ≠ "" then
    match Constraint.ofLine goBuild.toList with
    | .ok e => return e.eval ctx.ask
    | .error e => .error (.constraint name e)
  else
    return plusLinesHold ctx (← f.plusBuild.mapError .format)

/-- Whether a file is built, and the tags asked about. Where its name rules it out, its
constraints are not read. -/
def isBuilt (ctx : BuildContext) (name : String) (f : FileView) : Except Failure (Bool × List String) := do
  let (good, tags) := ((NameTags.ofName name).satisfied ctx).run []
  if good || ctx.useAllFiles then
    let (held, tags) := (← constraintsHold ctx name f).run tags
    return (held || ctx.useAllFiles, tags)
  else return (false, tags)

/-! ## Sources -/

def documentationName : String := "documentation"

/-- The package that a test outside it tests: one of another package whose name ends so. -/
def testedPackage? (n : Naming) (file pkg : String) : Option String :=
  if isTestName file && hasEnding "_test" pkg && n.name ≠ pkg then
    some (String.ofList (pkg.toList.take (pkg.toList.length - "_test".length)))
  else none

def cgoOf (ctx : BuildContext) (dir file : String) (imports : List Import) : Cgo.Flags × List PackageProblem :=
  let uses := imports.filter (·.path == "C")
  if isTestName file then
    ({}, uses.map fun _ => .file ("use of cgo in test " ++ file ++ " not supported"))
  else
    let asked := (uses.filter (·.doc ≠ "")).map fun i => Cgo.Flags.ofPreamble ctx dir i.doc
    (asked.foldl (fun flags a => flags ++ a.1) {}, asked.filterMap fun a => a.2.map fun e => .file (e.message file))

def sourceListing (ctx : BuildContext) (isCgo isXtest isTest : Bool) : Listing :=
  if isCgo then (if ctx.cgoEnabled then .cgo else .ignoredGo)
  else if isXtest then .xtestGo
  else if isTest then .testGo
  else .go

def meetCommentOf (mode : ResolveMode) (dir file : String) (f : FileView) (n : Naming) :
    Field (Naming × List PackageProblem) := do
  if mode.importComment then
    let line ← f.importCommentLine
    if line = 0 then return (n, []) else return n.meetComment dir file (← f.importComment) line
  else return (n, [])

/-- The first synopsis met documents the package; a test does not. -/
def meetSynopsis (isTest : Bool) (f : FileView) (n : Naming) : Field Naming := do
  if n.doc = "" ∧ ¬ isTest then return { n with doc := ← f.synopsis } else return n

def embedsFor (listing : Listing) (f : FileView) : Field (List Embed) :=
  if listing = .ignoredGo then .ok [] else f.embeds

/-- Judges a source that is built; `o` is what is known of it. Imports and embeds of a file
that would need cgo do not count without it. -/
def judgeSource (ctx : BuildContext) (mode : ResolveMode) (dir : String) (n : Naming) (f : FileView) (o : Outcome) :
    Field (Outcome × Naming) := do
  let pkg ← f.pkgName
  if pkg = documentationName then return ({ o with listing := some .ignoredGo }, n)
  let isTest := isTestName o.name
  let tested? := testedPackage? n o.name pkg
  let (n, named) := n.meet dir o.name (tested?.getD pkg)
  let n ← meetSynopsis isTest f n
  let (n, commented) ← meetCommentOf mode dir o.name f n
  let imports ← f.imports
  let isCgo := !isTest && imports.any (·.path == "C")
  let (flags, asked) := cgoOf ctx dir o.name imports
  let listing := sourceListing ctx isCgo tested?.isSome isTest
  let embeds ← embedsFor listing f
  let o := { o with
    listing := some listing
    problems := o.problems ++ named ++ commented ++ asked
    tags := o.tags ++ (if isCgo then ["cgo"] else [])
    flags
    imports := if listing = .ignoredGo then [] else imports
    embeds }
  return (o, n)

/-! ## One file -/

def judge (ctx : BuildContext) (mode : ResolveMode) (dir : String) (n : Naming) (f : FileView) :
    Except Failure (Outcome × Naming) := do
  let name ← f.name.mapError .format
  let error ← f.error.mapError .format
  if error ≠ "" then return ({ name, problems := [.file error] }, n)
  let parseError ← f.parseError.mapError .format
  let problems : List PackageProblem := if parseError = "" then [] else [.file parseError]
  if ← f.ignoreFile.mapError .format then
    return ({ name, problems, listing := if isHiddenName name then none else Listing.ignored? name }, n)
  let (built, tags) ← isBuilt ctx name f
  if ¬ built then return ({ name, problems, tags, listing := Listing.ignored? name }, n)
  let binaryOnly ← f.binaryOnly.mapError .format
  let o : Outcome := { name, problems, tags, binaryOnly }
  match Language.ofName? name with
  | none => return (o, n)
  | some .go => (judgeSource ctx mode dir n f o).mapError .format
  | some l => return ({ o with listing := some (Listing.ofLanguage l) }, n)

def judgeAll (ctx : BuildContext) (mode : ResolveMode) (dir : String) (n : Naming) :
    List FileView → Except Failure (List Outcome × Naming)
  | [] => .ok ([], n)
  | f :: fs => do
    let (o, n) ← judge ctx mode dir n f
    let (os, n) ← judgeAll ctx mode dir n fs
    return (o :: os, n)

end PackageIndex
