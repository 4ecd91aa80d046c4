/-
  PackageIndex.Context.Reader — build contexts written in JSON.

  An object names the fields it sets; an array sets them in their order. What is not set
  is the host's. Members of other names are passed over, but a field set twice, or to a
  value of another kind, is none.
-/

import PackageIndex.Context.Basic
import PackageIndex.Failure
import PackageIndex.Json.Parser

namespace PackageIndex.BuildContext

def stringOf? : Json → Option String
  | .string body => Json.text? body
  | _ => none

def boolOf? : Json → Option Bool
  | .bool b => some b
  | _ => none

def stringsOf? : Json → Option (List String)
  | .array vs => vs.mapM stringOf?
  | _ => none

def setters : List (String × (Json → BuildContext → Option BuildContext)) :=
  [("goos", fun v ctx => (stringOf? v).map fun goos => { ctx with goos }),
   ("goarch", fun v ctx => (stringOf? v).map fun goarch => { ctx with goarch }),
   ("compiler", fun v ctx => (stringOf? v).map fun compiler => { ctx with compiler }),
   ("install_suffix", fun v ctx => (stringOf? v).map fun installSuffix => { ctx with installSuffix }),
   ("cgo_enabled", fun v ctx => (boolOf? v).map fun cgoEnabled => { ctx with cgoEnabled }),
   ("use_all_files", fun v ctx => (boolOf? v).map fun useAllFiles => { ctx with useAllFiles }),
   ("build_tags", fun v ctx => (stringsOf? v).map fun buildTags => { ctx with buildTags }),
   ("tool_tags", fun v ctx => (stringsOf? v).map fun toolTags => { ctx with toolTags }),
   ("release_tags", fun v ctx => (stringsOf? v).map fun releaseTags => { ctx with releaseTags })]

/-- Sets one field; a name that is none sets nothing. -/
def set? (ctx : BuildContext) (field : String × Json) : Option BuildContext :=
  match setters.lookup field.1 with
  | some set => set field.2 ctx
  | none => some ctx

def setAll? (ctx : BuildContext) (fields : List (String × Json)) : Option BuildContext :=
  if (fields.map (·.1)).filter (fun k => (setters.lookup k).isSome) |>.Nodup then fields.foldlM set? ctx
  else none

def ofJson? : Json → Option BuildContext
  | .object members => do setAll? host (← members.mapM fun (k, v) => do return (← Json.text? k, v))
  | .array vs =>
    if vs.length ≤ setters.length then setAll? host ((setters.map (·.1)).zip vs) else none
  | _ => none

def ofText? (s : List Char) : Option BuildContext := (Json.parse? s).bind ofJson?

end PackageIndex.BuildContext
