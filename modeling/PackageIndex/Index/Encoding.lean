/-
  PackageIndex.Index.Encoding — the bytes of an index.

  An index is its version string, the offset of the string table, the count of packages,
  the offsets of their directories' names, those of their records, the records, and the
  string table. A package's record is five words, the offsets of its files' records, and
  these; a file's is ten words and three counted lists. All numbers are words.
-/

import PackageIndex.Index.Strings
import PackageIndex.Path
import PackageIndex.Record.Basic

namespace PackageIndex

def indexVersion : List UInt8 := Utf8.ofString "go index v0\n"

namespace Encoding

abbrev Writer (α : Type) := StateT StringPool (Except FormatError) α

def ref (s : String) : Writer UInt32 := StringPool.intern s

def count (n : Nat) : Writer UInt32 :=
  if FitsWord n then return n.toUInt32 else throw .listTooLong

def address (n : Nat) : Writer UInt32 :=
  if FitsWord n then return n.toUInt32 else throw .indexTooLong

def boolWord (b : Bool) : UInt32 := if b then 1 else 0

/-! ## Records -/

def positionWords (p : Position) : Writer (List UInt32) := do
  return [← ref p.filename, p.offset, p.line, p.column]

def importWords (i : Import) : Writer (List UInt32) := do
  let path ← ref i.path
  let doc ← ref i.doc
  return path :: doc :: (← positionWords i.position)

def embedWords (e : Embed) : Writer (List UInt32) := do
  let pattern ← ref e.pattern
  return pattern :: (← positionWords e.position)

def listWords {α : Type} (item : α → Writer (List UInt32)) (l : List α) : Writer (List UInt32) := do
  let n ← count l.length
  return n :: (← l.mapM item).flatten

def fileWords (f : FileRecord) : Writer (List UInt32) := do
  let error ← ref f.error
  let parseError ← ref f.parseError
  let synopsis ← ref f.synopsis
  let name ← ref f.name
  let pkgName ← ref f.pkgName
  let importComment ← ref f.importComment
  let goBuild ← ref f.goBuild
  let plusBuild ← listWords (fun line => return [← ref line]) f.plusBuild
  let imports ← listWords importWords f.imports
  let embeds ← listWords embedWords f.flatEmbeds
  return [error, parseError, synopsis, name, pkgName, boolWord f.ignoreFile, boolWord f.binaryOnly, importComment,
    f.importCommentLine, goBuild] ++ plusBuild ++ imports ++ embeds

/-- Records written one after another from address `start` on: where each begins, and the words
of all. -/
def placed {α : Type} (record : Nat → α → Writer (List UInt32)) :
    (start : Nat) → List α → Writer (List UInt32 × List UInt32)
  | _, [] => return ([], [])
  | start, a :: l => do
    let here ← address start
    let words ← record start a
    let (offsets, more) ← placed record (start + 4 * words.length) l
    return (here :: offsets, words ++ more)

def packageWords (start : Nat) (p : PackageRecord) : Writer (List UInt32) := do
  let error ← ref p.error
  let path ← ref p.path
  let srcDir ← ref p.srcDir
  let dir ← ref p.dir
  let n ← count p.files.length
  let (offsets, files) ← placed (fun _ => fileWords) (start + 4 * (5 + p.files.length)) p.files
  return [error, path, srcDir, dir, n] ++ offsets ++ files

/-! ## The whole -/

/-- The words between the string table's offset and the string table. -/
def moduleWords (ps : List PackageRecord) : Writer (List UInt32) := do
  let n ← count ps.length
  let dirs ← ps.mapM fun p => ref p.dir
  let (offsets, records) ← placed packageWords (20 + 4 * (2 * ps.length)) ps
  return n :: dirs ++ offsets ++ records

def indexBytes (ps : List PackageRecord) : Except FormatError (List UInt8) := do
  let (words, pool) ← (moduleWords ps).run {}
  let (tableOffset, _) ← (address (16 + 4 * words.length)).run pool
  let bytes := indexVersion ++ bytesOfWords (tableOffset :: words) ++ pool.bytes
  if FitsWord bytes.length then return bytes else throw .indexTooLong

end Encoding

/-! ## Modules -/

def PackageRecord.relativeTo (moduleDir : String) (p : PackageRecord) : Except Failure PackageRecord :=
  match Path.relative? moduleDir p.dir with
  | some dir => .ok { p with dir }
  | none => .error (.outsideModule p.dir moduleDir)

def sortedByDir (ps : List PackageRecord) : List PackageRecord := ps.mergeSort fun p q => p.dir ≤ q.dir

/-- The index of a module in `moduleDir`, and its packages as they stand in it. -/
def Encoding.ofModule (moduleDir : String) (ps : List PackageRecord) :
    Except Failure (List UInt8 × List PackageRecord) := do
  let ps := sortedByDir (← ps.mapM (·.relativeTo moduleDir))
  let bytes ← (Encoding.indexBytes ps).mapError .format
  return (bytes, ps)

end PackageIndex
