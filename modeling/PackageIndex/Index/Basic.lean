/-
  PackageIndex.Index.Basic — an open index.

  Opening an index reads where its packages are and keeps the string table; all else is
  read when it is asked for. Words are read from the record area only, which ends where
  the string table begins.
-/

import PackageIndex.Index.Encoding
import PackageIndex.Record.View

namespace PackageIndex

structure OpenIndex where
  moduleDir : String
  data : Array UInt8
  /-- Where the record area ends. -/
  tableOffset : Nat
  strings : StringTable
  /-- The directory of each package and the address of its record, in order. -/
  packages : List (String × Nat)
  deriving DecidableEq, Inhabited

namespace OpenIndex

/-! ## Opening -/

def ofBytes (moduleDir : String) (data : Array UInt8) : Except FormatError OpenIndex := do
  let version := (data.extract 0 indexVersion.length).toList
  if version.length < indexVersion.length then throw .truncatedHeader
  if version ≠ indexVersion then throw (.version version)
  let some table := wordAt? data 12 | throw .truncatedHeader
  let some count := wordAt? data 16 | throw .truncatedHeader
  let tableOffset := table.toNat
  let n := count.toNat
  if tableOffset < 20 ∨ data.size ≤ tableOffset then throw (.tableOffset tableOffset data.size)
  if tableOffset < 20 + 8 * n then throw (.packageTable n)
  if data[tableOffset]? ≠ some 0 then throw .truncatedTable
  let strings : StringTable := ⟨data.extract tableOffset⟩
  let dirs := (wordsAt? data 20 n).getD []
  let offsets := (wordsAt? data (20 + 4 * n) n).getD []
  let packages ← (dirs.zip offsets).mapM fun (dir, offset) => do return (← strings.get dir, offset.toNat)
  return { moduleDir, data, tableOffset, strings, packages }

def dirs (x : OpenIndex) : List String := x.packages.map (·.1)

def size (x : OpenIndex) : Nat := x.packages.length

def isEmpty (x : OpenIndex) : Bool := x.packages.isEmpty

/-- The address of the record of a package; of two of the same directory, the later one's. -/
def address? (x : OpenIndex) (dir : String) : Option Nat := x.packages.reverse.lookup dir

def contains (x : OpenIndex) (dir : String) : Bool := (x.address? dir).isSome

/-! ## Words -/

def words (x : OpenIndex) (a n : Nat) : Field (List UInt32) :=
  let found := if a + 4 * n ≤ x.tableOffset then wordsAt? x.data a n else none
  match found with
  | some ws => .ok ws
  | none => .error (.readPastEnd n a x.tableOffset)

def word (x : OpenIndex) (a : Nat) : Field UInt32 := do
  match ← x.words a 1 with
  | w :: _ => return w
  | [] => throw (.readPastEnd 1 a x.tableOffset)

def string (x : OpenIndex) (a : Nat) : Field String := do x.strings.get (← x.word a)

def bool (x : OpenIndex) (a : Nat) : Field Bool := do
  let w ← x.word a
  if w = 0 then return false
  else if w = 1 then return true
  else throw (.notBool w.toNat a)

/-! ## Counted lists -/

def itemWords (n size : Nat) : Field Nat :=
  if FitsWord (n * size) then return n * size else throw (.listLength n)

def list (x : OpenIndex) (a size : Nat) : Field (List UInt32) := do
  let n ← x.word a
  x.words (a + 4) (← itemWords n.toNat size)

def afterList (x : OpenIndex) (a size : Nat) : Field Nat := do
  let n ← x.word a
  let behind := a + 4 * (1 + (← itemWords n.toNat size))
  if behind ≤ x.tableOffset then return behind else throw (.listPastEnd n.toNat a)

def importsOfWords (x : OpenIndex) : List UInt32 → Field (List Import)
  | path :: doc :: filename :: offset :: line :: column :: rest => do
    let path ← x.strings.get path
    let doc ← x.strings.get doc
    let filename ← x.strings.get filename
    return { path, doc, position := { filename, offset, line, column } } :: (← importsOfWords x rest)
  | _ => return []

def embedsOfWords (x : OpenIndex) : List UInt32 → Field (List Embed)
  | pattern :: filename :: offset :: line :: column :: rest => do
    let pattern ← x.strings.get pattern
    let filename ← x.strings.get filename
    return { pattern, position := { filename, offset, line, column } } :: (← embedsOfWords x rest)
  | _ => return []

end OpenIndex

end PackageIndex
