/-
  PackageIndex.Index.Resolve — packages resolved straight from an open index.
-/

import PackageIndex.Index.Entry
import PackageIndex.Resolve.Assembly

namespace PackageIndex.OpenIndex

def resolve (x : OpenIndex) (dir : String) (ctx : BuildContext) (mode : ResolveMode) :
    Except Failure BuildPackage := do
  match ← (x.package? dir).mapError .format with
  | some p => PackageIndex.resolve p.view ctx mode
  | none => throw (.pathNotFound (Path.join x.moduleDir dir))

end PackageIndex.OpenIndex
