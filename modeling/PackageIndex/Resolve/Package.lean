/-
  PackageIndex.Resolve.Package — a package as it is for one build context.

  Lists of files keep the order of the records, but for the one that takes in the
  assembly that hangs on cgo: it is sorted.
-/

import PackageIndex.Cgo.Flags
import PackageIndex.Record.Basic

namespace PackageIndex

/-! ## Problems -/

/-- What keeps a package from building. Two files of different packages are given with the
names of their packages, the first-seen one first. -/
inductive PackageProblem where
  | package (text : String)
  | file (text : String)
  | multiplePackages (dir : String) (packages files : String × String)
  | noSources (dir : String)
  | unknownCompiler (compiler : String)
  deriving DecidableEq, Repr

def PackageProblem.message : PackageProblem → String
  | .package text => text
  | .file text => text
  | .multiplePackages dir (p, q) (f, g) =>
    "found packages " ++ p ++ " (" ++ f ++ ") and " ++ q ++ " (" ++ g ++ ") in " ++ dir
  | .noSources dir => "no buildable Go source files in " ++ dir
  | .unknownCompiler compiler => "import \".\": unknown compiler " ++ Quoted.ofString compiler

/-! ## The package -/

abbrev Declarations := SortedMap (List Position)

structure BuildPackage where
  dir : String
  importPath : String
  name : String := ""
  doc : String := ""
  importComment : String := ""
  binaryOnly : Bool := false
  goFiles : List String := []
  cgoFiles : List String := []
  ignoredGoFiles : List String := []
  ignoredOtherFiles : List String := []
  /-- The files with a problem, each once. -/
  invalidGoFiles : List String := []
  cFiles : List String := []
  cxxFiles : List String := []
  mFiles : List String := []
  hFiles : List String := []
  fFiles : List String := []
  sFiles : List String := []
  swigFiles : List String := []
  swigCxxFiles : List String := []
  sysoFiles : List String := []
  testGoFiles : List String := []
  xtestGoFiles : List String := []
  cgo : Cgo.Flags := {}
  imports : Declarations := ∅
  testImports : Declarations := ∅
  xtestImports : Declarations := ∅
  embeds : Declarations := ∅
  testEmbeds : Declarations := ∅
  xtestEmbeds : Declarations := ∅
  /-- The tags that the answer hangs on. -/
  allTags : List String := []
  error : Option PackageProblem := none
  deriving DecidableEq, Inhabited

/-- Whether some source builds, tests included. -/
def BuildPackage.hasSources (p : BuildPackage) : Bool :=
  !(p.goFiles.isEmpty && p.cgoFiles.isEmpty && p.testGoFiles.isEmpty && p.xtestGoFiles.isEmpty)

end PackageIndex
