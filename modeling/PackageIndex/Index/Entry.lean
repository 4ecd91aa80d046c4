/-
  PackageIndex.Index.Entry — the packages and files of an open index.

  A package is read down to where the records of its files are, a file field by field.
  The two lists behind a file's `+build` lines have to be looked for; where they begin is
  remembered.
-/

import PackageIndex.Index.Basic

namespace PackageIndex

/-! ## Files -/

/-- Where the lists of imports and embeds of a file begin, once they are found. -/
structure Located where
  imports : Option Nat := none
  embeds : Option Nat := none
  deriving DecidableEq, Repr, Inhabited

/-- Reading that remembers what it found, also where it fails. -/
abbrev Reading (α : Type) := ExceptT FormatError (StateM Located) α

structure FileEntry where
  index : OpenIndex
  offset : Nat
  located : Located := {}
  deriving DecidableEq, Inhabited

namespace FileEntry

def error (e : FileEntry) : Field String := e.index.string e.offset

def parseError (e : FileEntry) : Field String := e.index.string (e.offset + 4)

def synopsis (e : FileEntry) : Field String := e.index.string (e.offset + 8)

def name (e : FileEntry) : Field String := e.index.string (e.offset + 12)

def pkgName (e : FileEntry) : Field String := e.index.string (e.offset + 16)

def ignoreFile (e : FileEntry) : Field Bool := e.index.bool (e.offset + 20)

def binaryOnly (e : FileEntry) : Field Bool := e.index.bool (e.offset + 24)

def importComment (e : FileEntry) : Field String := e.index.string (e.offset + 28)

def importCommentLine (e : FileEntry) : Field UInt32 := e.index.word (e.offset + 32)

def goBuild (e : FileEntry) : Field String := e.index.string (e.offset + 36)

def plusBuild (e : FileEntry) : Field (List String) := do
  (← e.index.list (e.offset + 40) 1).mapM e.index.strings.get

def importsAddress (e : FileEntry) : Reading Nat := do
  match (← get).imports with
  | some a => return a
  | none =>
    let a ← e.index.afterList (e.offset + 40) 1
    modify fun l => { l with imports := some a }
    return a

def embedsAddress (e : FileEntry) : Reading Nat := do
  match (← get).embeds with
  | some a => return a
  | none =>
    let a ← e.index.afterList (← e.importsAddress) 6
    modify fun l => { l with embeds := some a }
    return a

def readImports (e : FileEntry) : Reading (List Import) := do
  e.index.importsOfWords (← e.index.list (← e.importsAddress) 6)

def readEmbeds (e : FileEntry) : Reading (List Embed) := do
  e.index.embedsOfWords (← e.index.list (← e.embedsAddress) 5)

def remember {α : Type} (e : FileEntry) (r : Reading α) : Field α × FileEntry :=
  let (answer, located) := r.run.run e.located
  (answer, { e with located })

def imports (e : FileEntry) : Field (List Import) := (e.remember e.readImports).1

def embeds (e : FileEntry) : Field (List Embed) := (e.remember e.readEmbeds).1

def view (e : FileEntry) : FileView where
  name := e.name
  synopsis := e.synopsis
  pkgName := e.pkgName
  ignoreFile := e.ignoreFile
  binaryOnly := e.binaryOnly
  goBuild := e.goBuild
  plusBuild := e.plusBuild
  importComment := e.importComment
  importCommentLine := e.importCommentLine
  imports := e.imports
  embeds := e.embeds
  error := e.error
  parseError := e.parseError

end FileEntry

/-! ## Packages -/

structure PackageEntry where
  error : String
  path : String
  srcDir : String
  dir : String
  files : List FileEntry
  deriving DecidableEq, Inhabited

def PackageEntry.view (p : PackageEntry) : PackageView where
  error := p.error
  path := p.path
  srcDir := p.srcDir
  dir := p.dir
  files := p.files.map FileEntry.view

namespace OpenIndex

/-- The file whose record is at `offset`, if its fixed part is in the record area. -/
def fileAt (x : OpenIndex) (offset : Nat) : Field FileEntry :=
  if offset + 44 ≤ x.tableOffset then return { index := x, offset } else throw (.filePastEnd offset x.tableOffset)

def packageAt (x : OpenIndex) (a : Nat) : Field PackageEntry := do
  match ← x.words a 5 with
  | [error, path, srcDir, dir, n] =>
    let files ← (← x.words (a + 20) n.toNat).mapM fun offset => x.fileAt offset.toNat
    let error ← x.strings.get error
    let path ← x.strings.get path
    let srcDir ← x.strings.get srcDir
    let dir ← x.strings.get dir
    return { error, path, srcDir, dir, files }
  | _ => throw (.readPastEnd 5 a x.tableOffset)

def package? (x : OpenIndex) (dir : String) : Field (Option PackageEntry) :=
  match x.address? dir with
  | some a => some <$> x.packageAt a
  | none => return none

end OpenIndex

end PackageIndex
