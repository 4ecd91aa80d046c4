/-
  PackageIndex.Cgo.Apply — flags that a comment is taken into.

  One line after the other adds what it asks for to one of the lists. The first faulty line
  ends this: what the lines before it have added stays, and its fault is told. `ofPreamble` is
  what a comment adds, wherever it is taken into.
-/

import PackageIndex.Cgo.Flags

namespace PackageIndex.Cgo.Flags

def applyLine (ctx : BuildContext) (dir : String) (f : Flags) (line : List Char) : Except LineError Flags :=
  (request ctx dir line).map fun
    | none => f
    | some (verb, args) => f.extend verb (verb.strings dir args)

def applyLines (ctx : BuildContext) (dir : String) (f : Flags) : List (List Char) → Flags × Option LineError
  | [] => (f, none)
  | line :: lines =>
    match applyLine ctx dir f line with
    | .error e => (f, some e)
    | .ok g => applyLines ctx dir g lines

/-- The flags with what the comment adds to them, and what is wrong with its first faulty line. -/
def apply (ctx : BuildContext) (filename dir : String) (f : Flags) (preamble : String) : Flags × Option String :=
  let (g, fault) := applyLines ctx dir f (preamble.toList.splitOn '\n')
  (g, fault.map (LineError.message filename))

end PackageIndex.Cgo.Flags
