/-
  PackageIndex.Context.Basic — what a package is built for, and which tags that satisfies.

  `satisfies` answers about one tag, `satisfiesText` about a constraint in either syntax.
  `ask` answers as `satisfies` does and keeps a log of what it was asked.
-/

import PackageIndex.Constraint.Line
import PackageIndex.Record.SortedMap

namespace PackageIndex

def latestRelease : Nat := 22

structure BuildContext where
  goos : String
  goarch : String
  compiler : String := "gc"
  installSuffix : String := ""
  cgoEnabled : Bool
  /-- No file is left out for its name or its constraints. -/
  useAllFiles : Bool := false
  buildTags : List String := []
  toolTags : List String := []
  releaseTags : List String := (List.range latestRelease).map fun n => "go1." ++ toString (n + 1)
  deriving DecidableEq, Repr, Inhabited

namespace BuildContext

def cgoByDefault (goos goarch : String) : Bool :=
  !(["js", "wasip1", "plan9"].contains goos || goarch == "wasm")

def ofTarget (goos goarch : String) : BuildContext where
  goos
  goarch
  cgoEnabled := cgoByDefault goos goarch

/-- What applies where nothing else is said. -/
def host : BuildContext := ofTarget "linux" "amd64"

/-! ## Tags -/

/-- Systems that also satisfy the tag of an older one. -/
def systemAliases : List (String × String) :=
  [("android", "linux"), ("illumos", "solaris"), ("ios", "darwin")]

def satisfies (ctx : BuildContext) (tag : String) : Bool :=
  (ctx.cgoEnabled && tag == "cgo") || tag == ctx.goos || tag == ctx.goarch || tag == ctx.compiler ||
    systemAliases.contains (ctx.goos, tag) ||
    (ctx.buildTags ++ ctx.toolTags ++ ctx.releaseTags).contains tag

def holds (p : String → Bool) (e : Constraint) : Bool :=
  ((e.eval fun tag => (pure (p tag) : StateM Unit Bool)).run ()).1

/-- A text with an operator or parenthesis is an expression, any other a list of terms. One
that cannot be read is not satisfied. -/
def satisfiesText (ctx : BuildContext) (text : String) : Bool :=
  let s := text.toList
  let parsed :=
    if s.any ['&', '|', '(', ')'].contains then Constraint.ofGoBuild s else Constraint.ofPlusBuild s
  match parsed with
  | .ok e => holds ctx.satisfies e
  | .error _ => false

/-! ## The log of tags -/

/-- An answer, and the tags asked about on the way to it, in order and with repeats. -/
abbrev Asking (α : Type) := StateM (List String) α

def ask (ctx : BuildContext) (tag : String) : Asking Bool := do
  modify (· ++ [tag])
  return ctx.satisfies tag

def distinctTags (log : List String) : List String := (SortedMap.ofList (log.map (·, ()))).keys

end BuildContext

end PackageIndex
