/-
  PackageIndex.Source.Header — what a source file declares at its head.

  Every file has leading lines; a `.go` file has a package clause and imports besides,
  and embeds if it imports "embed". A file with two `//go:build` lines has no header. A
  malformed one has what was read before the error, and the error.
-/

import PackageIndex.Source.Clause
import PackageIndex.Source.Embed
import PackageIndex.Source.Leading

namespace PackageIndex.Source

structure Header where
  packageName : String := ""
  synopsis : String := ""
  goBuild : String := ""
  plusBuild : List String := []
  binaryOnly : Bool := false
  importComment : String := ""
  importCommentLine : UInt32 := 0
  imports : List Import := []
  embeds : List Embed := []
  parseError : Option String := none
  deriving DecidableEq, Repr, Inhabited

/-- The file of this name has two `//go:build` lines. -/
structure HeaderError where
  name : String
  deriving DecidableEq, Repr

def HeaderError.message (e : HeaderError) : String := e.name ++ ": multiple //go:build comments"

def isGoName (name : String) : Bool := ".go".toList.isSuffixOf name.toList

def Header.addClause (h : Header) (filename : String) (source : List Char) : Header :=
  let c := clause filename source
  { h with
    packageName := c.packageName
    synopsis := c.synopsis
    importComment := c.importComment
    importCommentLine := c.importCommentLine.toUInt32
    imports := c.imports
    embeds :=
      if c.error.isNone && c.imports.any (·.path == "embed") then embedsOfSource filename source else []
    parseError := c.error.map (·.message filename) }

def Header.scan (name path : String) (content : List UInt8) : Except HeaderError Header :=
  match leading? content with
  | none => .error ⟨name⟩
  | some l =>
    let h : Header :=
      { goBuild := String.ofList (l.goBuild.getD [])
        plusBuild := l.plusBuild.map String.ofList
        binaryOnly := l.binaryOnly }
    if ¬ isGoName name then .ok h
    else
      match Utf8.decode content with
      | .error f =>
        .ok { h with
          parseError := some (path ++ ": invalid UTF-8 encoding at byte " ++ toString f.validUpTo) }
      | .ok source => .ok (h.addClause path source)

end PackageIndex.Source
