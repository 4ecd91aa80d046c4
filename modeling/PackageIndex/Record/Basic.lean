/-
  PackageIndex.Record.Basic — what is recorded of a module's sources.

  A module is a table of packages by directory, a package a list of files, and a file
  what its header declares, before any of it is judged against a build context. Stored
  numbers are 32-bit words.
-/

import PackageIndex.Record.SortedMap

namespace PackageIndex

structure Position where
  filename : String := ""
  offset : UInt32 := 0
  line : UInt32 := 0
  column : UInt32 := 0
  deriving DecidableEq, Repr, Inhabited

structure Import where
  path : String := ""
  /-- The comment in front of the declaration. -/
  doc : String := ""
  position : Position := {}
  deriving DecidableEq, Repr, Inhabited

structure Embed where
  pattern : String := ""
  position : Position := {}
  deriving DecidableEq, Repr, Inhabited

/-- One file of a directory. A file with an `error` could not be read. -/
structure FileRecord where
  name : String := ""
  synopsis : String := ""
  pkgName : String := ""
  ignoreFile : Bool := false
  binaryOnly : Bool := false
  goBuild : String := ""
  plusBuild : List String := []
  importComment : String := ""
  importCommentLine : UInt32 := 0
  imports : List Import := []
  /-- The positions of each embed pattern. -/
  embeds : SortedMap (List Position) := ∅
  error : String := ""
  parseError : String := ""
  deriving DecidableEq, Inhabited

structure PackageRecord where
  error : String := ""
  path : String := ""
  srcDir : String := ""
  dir : String := ""
  files : List FileRecord := []
  deriving DecidableEq, Inhabited

structure ModuleRecord where
  dirs : SortedMap PackageRecord := ∅
  deriving DecidableEq, Inhabited

/-! ## Embeds, flat and by pattern -/

def embedsByPattern (l : List Embed) : SortedMap (List Position) :=
  l.foldl (fun m e => m.push e.pattern e.position) ∅

/-- The embeds of a file, by pattern and in the order of each pattern's positions. -/
def FileRecord.flatEmbeds (f : FileRecord) : List Embed :=
  f.embeds.entries.flatMap fun (pattern, positions) => positions.map fun p => ⟨pattern, p⟩

namespace ModuleRecord

def size (m : ModuleRecord) : Nat := m.dirs.entries.length

def isEmpty (m : ModuleRecord) : Bool := m.dirs.isEmpty

def packages (m : ModuleRecord) : List PackageRecord := m.dirs.entries.map (·.2)

end ModuleRecord

end PackageIndex
