/-
  PackageIndex.Record.View — records as their readers see them.

  A reader asks for one field at a time, and a field may be beyond reading. A record in
  memory is a view in which every field can be read.
-/

import PackageIndex.Failure
import PackageIndex.Record.Basic

namespace PackageIndex

abbrev Field (α : Type) := Except FormatError α

structure FileView where
  name : Field String
  synopsis : Field String
  pkgName : Field String
  ignoreFile : Field Bool
  binaryOnly : Field Bool
  goBuild : Field String
  plusBuild : Field (List String)
  importComment : Field String
  importCommentLine : Field UInt32
  imports : Field (List Import)
  embeds : Field (List Embed)
  error : Field String
  parseError : Field String

/-- A package of which the files are still to be read. -/
structure PackageView where
  error : String
  path : String
  srcDir : String
  dir : String
  files : List FileView

def FileRecord.view (f : FileRecord) : FileView where
  name := .ok f.name
  synopsis := .ok f.synopsis
  pkgName := .ok f.pkgName
  ignoreFile := .ok f.ignoreFile
  binaryOnly := .ok f.binaryOnly
  goBuild := .ok f.goBuild
  plusBuild := .ok f.plusBuild
  importComment := .ok f.importComment
  importCommentLine := .ok f.importCommentLine
  imports := .ok f.imports
  embeds := .ok f.flatEmbeds
  error := .ok f.error
  parseError := .ok f.parseError

def PackageRecord.view (p : PackageRecord) : PackageView where
  error := p.error
  path := p.path
  srcDir := p.srcDir
  dir := p.dir
  files := p.files.map FileRecord.view

def FileView.read (f : FileView) : Field FileRecord := do
  let name ← f.name
  let synopsis ← f.synopsis
  let pkgName ← f.pkgName
  let ignoreFile ← f.ignoreFile
  let binaryOnly ← f.binaryOnly
  let goBuild ← f.goBuild
  let plusBuild ← f.plusBuild
  let importComment ← f.importComment
  let importCommentLine ← f.importCommentLine
  let imports ← f.imports
  let embeds ← f.embeds
  let error ← f.error
  let parseError ← f.parseError
  return { name, synopsis, pkgName, ignoreFile, binaryOnly, goBuild, plusBuild, importComment, importCommentLine,
           imports, embeds := embedsByPattern embeds, error, parseError }

def PackageView.read (p : PackageView) : Field PackageRecord := do
  let files ← p.files.mapM FileView.read
  return { error := p.error, path := p.path, srcDir := p.srcDir, dir := p.dir, files }

end PackageIndex
