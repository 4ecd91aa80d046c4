/-
  PackageIndex.Context.Environment — the build context that environment variables name.
-/

import PackageIndex.Context.Basic
import PackageIndex.Failure

namespace PackageIndex.BuildContext

def nonempty (value : Option String) : Option String := value.filter (· ≠ "")

/-- The pieces of a comma-separated list that hold more than white space, trimmed. -/
def commaList (s : String) : List String :=
  ((s.toList.splitOn ',').map (trim isBlank)).filter (· ≠ []) |>.map String.ofList

/-- The host's context, overlaid with `GOOS`, `GOARCH`, `CGO_ENABLED` and `MODINDEX_TAGS`. -/
def ofEnvironment (env : String → Option String) : Except ContextError BuildContext := do
  let goos := (nonempty (env "GOOS")).getD host.goos
  let goarch := (nonempty (env "GOARCH")).getD host.goarch
  let cgoEnabled ← match nonempty (env "CGO_ENABLED") with
    | none => .ok (cgoByDefault goos goarch)
    | some "1" => .ok true
    | some "0" => .ok false
    | some other => .error (.cgoEnabled other)
  return { host with goos, goarch, cgoEnabled, buildTags := ((env "MODINDEX_TAGS").map commaList).getD [] }

end PackageIndex.BuildContext
