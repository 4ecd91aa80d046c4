/-
  PackageIndex.Resolve.Assembly — a package put together from its files.

  - `resolve` stops before the files where the record has an error, lies nowhere, or the
    mode says so; else it judges them one after another and collects what they add.
-/

import PackageIndex.Resolve.Outcome

namespace PackageIndex

/-! ## Collecting -/

def filesIn (b : Listing) (os : List Outcome) : List String :=
  (os.filter (·.listing = some b)).map (·.name)

/-- The files with a problem, each where it first has one. -/
def problemFiles (os : List Outcome) : List String :=
  ((os.filter (·.problems ≠ [])).map (·.name)).eraseDups

def outcomesIn (bs : List Listing) (os : List Outcome) : List Outcome :=
  os.filter fun o => bs.any (o.listing = some ·)

def importsIn (bs : List Listing) (os : List Outcome) : Declarations :=
  ((outcomesIn bs os).flatMap (·.imports)).foldl (fun m i => m.push i.path i.position) ∅

def embedsIn (bs : List Listing) (os : List Outcome) : Declarations :=
  embedsByPattern ((outcomesIn bs os).flatMap (·.embeds))

def sorted (l : List String) : List String := l.mergeSort (· ≤ ·)

def compilerProblem (ctx : BuildContext) : Option PackageProblem :=
  if ["gc", "gccgo"].contains ctx.compiler then none else some (.unknownCompiler ctx.compiler)

/-- Assembly for the preprocessor is built along with files that use cgo, and else ignored. -/
def assemble (ctx : BuildContext) (p : PackageView) (os : List Outcome) (n : Naming) : BuildPackage :=
  let cgoFiles := filesIn .cgo os
  let deferred := filesIn .deferred os
  let q : BuildPackage :=
    { dir := p.srcDir
      importPath := p.path
      name := n.name
      doc := n.doc
      importComment := n.importComment
      binaryOnly := os.any (·.binaryOnly)
      goFiles := filesIn .go os
      cgoFiles
      ignoredGoFiles := filesIn .ignoredGo os
      ignoredOtherFiles :=
        if cgoFiles = [] then sorted (filesIn .ignoredOther os ++ deferred) else filesIn .ignoredOther os
      invalidGoFiles := problemFiles os
      cFiles := filesIn .c os
      cxxFiles := filesIn .cxx os
      mFiles := filesIn .m os
      hFiles := filesIn .h os
      fFiles := filesIn .f os
      sFiles := if cgoFiles = [] then filesIn .s os else sorted (filesIn .s os ++ deferred)
      swigFiles := filesIn .swig os
      swigCxxFiles := filesIn .swigCxx os
      sysoFiles := filesIn .syso os
      testGoFiles := filesIn .testGo os
      xtestGoFiles := filesIn .xtestGo os
      cgo := os.foldl (fun flags o => flags ++ o.flags) {}
      imports := importsIn [.go, .cgo] os
      testImports := importsIn [.testGo] os
      xtestImports := importsIn [.xtestGo] os
      embeds := embedsIn [.go, .cgo] os
      testEmbeds := embedsIn [.testGo] os
      xtestEmbeds := embedsIn [.xtestGo] os
      allTags := BuildContext.distinctTags (os.flatMap (·.tags)) }
  let problem := match (os.flatMap (·.problems)).head? with
    | some problem => some problem
    | none => if q.hasSources then compilerProblem ctx else some (.noSources q.dir)
  { q with error := problem }

/-! ## Resolving -/

def isBinaryOnly (ctx : BuildContext) : List FileView → Except Failure Bool
  | [] => .ok false
  | f :: fs => do
    if ¬ (← f.binaryOnly.mapError .format) then return ← isBinaryOnly ctx fs
    if (← f.error.mapError .format) ≠ "" then return ← isBinaryOnly ctx fs
    if ← f.ignoreFile.mapError .format then return ← isBinaryOnly ctx fs
    let name ← f.name.mapError .format
    if (← isBuilt ctx name f).1 then return true else isBinaryOnly ctx fs

/-- Resolves a package for a build context. Only a `//go:build` line or a record that cannot
be read is an error; all else that is wrong the package itself tells. -/
def resolve (p : PackageView) (ctx : BuildContext) (mode : ResolveMode) : Except Failure BuildPackage := do
  let bare : BuildPackage := { dir := p.srcDir, importPath := p.path }
  if p.error ≠ "" then return { bare with error := some (.package p.error) }
  if p.srcDir = "" then
    return { bare with
      error := some (.package ("import " ++ Quoted.ofString p.path ++ ": import relative to unknown directory")) }
  if mode.findOnly then return { bare with error := compilerProblem ctx }
  if mode.allowBinary then
    if ← isBinaryOnly ctx p.files then return { bare with binaryOnly := true, error := compilerProblem ctx }
  let (os, n) ← judgeAll ctx mode p.srcDir {} p.files
  return assemble ctx p os n

end PackageIndex
