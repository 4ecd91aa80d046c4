/-
  PackageIndex.Index.Session — an open index while it is questioned.

  All addresses are 32-bit words that stand in the file or are computed from such words, so a
  sum can be too large for a word, and a read can go anywhere. Here every sum and every read
  is a step of its own. A string that was read is remembered for the whole index, and where
  its two lists begin for a file. The answers are those of `Index.Entry`
  (`Inquiry.package_answer`, `Inquiry.ask_answer`).
-/

import PackageIndex.Index.Entry

namespace PackageIndex

/-! ## Faults -/

inductive Fault where
  | format (e : FormatError)
  | truncatedRecord
  | fieldAddress (relative offset : Nat)
  | listAddress (offset : Nat)
  /-- A sum that no word holds, where nothing looks for it. -/
  | overflow (sum : Nat)
  deriving DecidableEq, Repr

/-- What is reported of a fault, if it is noticed. -/
def Fault.message? : Fault → Option String
  | .format e => some e.message
  | .truncatedRecord => some "truncated record"
  | .fieldAddress relative offset => some s!"field {relative} of file record at offset {offset} is out of range"
  | .listAddress offset => some s!"list at offset {offset} is out of range"
  | .overflow _ => none

/-! ## Sessions -/

structure Memory where
  /-- The strings that were read, by their offsets in the table. -/
  strings : List (UInt32 × String) := []
  /-- Where the lists of the file begin that is asked. -/
  located : Located := {}
  /-- Of each read, the address and how many words. -/
  reads : List (Nat × Nat) := []
  deriving DecidableEq, Repr, Inhabited

abbrev Session (α : Type) := ExceptT Fault (StateM Memory) α

def ofField {α : Type} (r : Field α) : Session α := liftM (r.mapError Fault.format)

def wordSum (a b : Nat) : Session Nat := if FitsWord (a + b) then return a + b else throw (.overflow (a + b))

/-- Where the first item stands of a list whose count is at `a`. -/
def afterCount (a : Nat) : Session Nat := if FitsWord (a + 4) then return a + 4 else throw (.listAddress a)

def finding (known : Located → Option Nat) (learn : Nat → Located → Located) (find : Session Nat) : Session Nat := do
  match known (← get).located with
  | some a => return a
  | none =>
    let a ← find
    modify fun m => { m with located := learn a m.located }
    return a

namespace OpenIndex

/-! ## Words and strings -/

def readWords (x : OpenIndex) (a n : Nat) : Session (List UInt32) := do
  if x.tableOffset < a + 4 * n then throw (.format (.readPastEnd n a x.tableOffset))
  modify fun m => { m with reads := (a, n) :: m.reads }
  match wordsAt? x.data a n with
  | some ws => return ws
  | none => throw .truncatedRecord

def readWord (x : OpenIndex) (a : Nat) : Session UInt32 := do
  match ← x.readWords a 1 with
  | w :: _ => return w
  | [] => throw .truncatedRecord

def readBool (x : OpenIndex) (a : Nat) : Session Bool := do
  let w ← x.readWord a
  if w = 0 then return false
  else if w = 1 then return true
  else throw (.format (.notBool w.toNat a))

def recallString (x : OpenIndex) (offset : UInt32) : Session String := do
  if offset = 0 then return ""
  match (← get).strings.lookup offset with
  | some s => return s
  | none =>
    let s ← ofField (x.strings.get offset)
    modify fun m => { m with strings := (offset, s) :: m.strings }
    return s

def recallPosition (x : OpenIndex) (filename offset line column : UInt32) : Session Position := do
  return { filename := ← x.recallString filename, offset, line, column }

def recallImports (x : OpenIndex) : List UInt32 → Session (List Import)
  | path :: doc :: filename :: offset :: line :: column :: rest => do
    let path ← x.recallString path
    let doc ← x.recallString doc
    let position ← x.recallPosition filename offset line column
    return { path, doc, position } :: (← recallImports x rest)
  | _ => return []

def recallEmbeds (x : OpenIndex) : List UInt32 → Session (List Embed)
  | pattern :: filename :: offset :: line :: column :: rest => do
    let pattern ← x.recallString pattern
    let position ← x.recallPosition filename offset line column
    return { pattern, position } :: (← recallEmbeds x rest)
  | _ => return []

/-! ## Counted lists -/

def readList (x : OpenIndex) (a size : Nat) : Session (List UInt32) := do
  let n ← x.readWord a
  let first ← afterCount a
  x.readWords first (← ofField (itemWords n.toNat size))

def skipList (x : OpenIndex) (a size : Nat) : Session Nat := do
  let n ← x.readWord a
  let behind := a + 4 * (1 + (← ofField (itemWords n.toNat size)))
  if FitsWord behind ∧ behind ≤ x.tableOffset then return behind else throw (.format (.listPastEnd n.toNat a))

end OpenIndex

/-! ## Files -/

inductive Question : Type → Type
  | error : Question String
  | parseError : Question String
  | synopsis : Question String
  | name : Question String
  | pkgName : Question String
  | ignoreFile : Question Bool
  | binaryOnly : Question Bool
  | importComment : Question String
  | importCommentLine : Question UInt32
  | goBuild : Question String
  | plusBuild : Question (List String)
  | imports : Question (List Import)
  | embeds : Question (List Embed)
  /-- All of it at once. -/
  | record : Question FileRecord

def FileView.answer (f : FileView) : {α : Type} → Question α → Field α
  | _, .error => f.error
  | _, .parseError => f.parseError
  | _, .synopsis => f.synopsis
  | _, .name => f.name
  | _, .pkgName => f.pkgName
  | _, .ignoreFile => f.ignoreFile
  | _, .binaryOnly => f.binaryOnly
  | _, .importComment => f.importComment
  | _, .importCommentLine => f.importCommentLine
  | _, .goBuild => f.goBuild
  | _, .plusBuild => f.plusBuild
  | _, .imports => f.imports
  | _, .embeds => f.embeds
  | _, .record => f.read

namespace FileEntry

variable (e : FileEntry)

def fieldAddress (relative : Nat) : Session Nat :=
  if FitsWord (e.offset + relative) then return e.offset + relative else throw (.fieldAddress relative e.offset)

def askString (relative : Nat) : Session String := do
  e.index.recallString (← e.index.readWord (← e.fieldAddress relative))

def askBool (relative : Nat) : Session Bool := do e.index.readBool (← e.fieldAddress relative)

def askWord (relative : Nat) : Session UInt32 := do e.index.readWord (← e.fieldAddress relative)

/-- The items of this list are words, so nothing is multiplied here. -/
def askLines : Session (List String) := do
  let a ← e.fieldAddress 40
  let n ← e.index.readWord a
  (← e.index.readWords (← afterCount a) n.toNat).mapM e.index.recallString

def findImports : Session Nat :=
  finding (·.imports) (fun a l => { l with imports := some a }) do e.index.skipList (← e.fieldAddress 40) 1

def findEmbeds : Session Nat :=
  finding (·.embeds) (fun a l => { l with embeds := some a }) do e.index.skipList (← e.findImports) 6

def askImports : Session (List Import) := do
  e.index.recallImports (← e.index.readList (← e.findImports) 6)

def askEmbeds : Session (List Embed) := do
  e.index.recallEmbeds (← e.index.readList (← e.findEmbeds) 5)

def askRecord : Session FileRecord := do
  let name ← e.askString 12
  let synopsis ← e.askString 8
  let pkgName ← e.askString 16
  let ignoreFile ← e.askBool 20
  let binaryOnly ← e.askBool 24
  let goBuild ← e.askString 36
  let plusBuild ← e.askLines
  let importComment ← e.askString 28
  let importCommentLine ← e.askWord 32
  let imports ← e.askImports
  let embeds ← e.askEmbeds
  let error ← e.askString 0
  let parseError ← e.askString 4
  return { name, synopsis, pkgName, ignoreFile, binaryOnly, goBuild, plusBuild, importComment, importCommentLine,
           imports, embeds := embedsByPattern embeds, error, parseError }

def ask : {α : Type} → Question α → Session α
  | _, .error => e.askString 0
  | _, .parseError => e.askString 4
  | _, .synopsis => e.askString 8
  | _, .name => e.askString 12
  | _, .pkgName => e.askString 16
  | _, .ignoreFile => e.askBool 20
  | _, .binaryOnly => e.askBool 24
  | _, .importComment => e.askString 28
  | _, .importCommentLine => e.askWord 32
  | _, .goBuild => e.askString 36
  | _, .plusBuild => e.askLines
  | _, .imports => e.askImports
  | _, .embeds => e.askEmbeds
  | _, .record => e.askRecord

end FileEntry

/-! ## Packages -/

namespace OpenIndex

def askPackageAt (x : OpenIndex) (a : Nat) : Session PackageEntry := do
  match ← x.readWords a 5 with
  | [error, path, srcDir, dir, n] =>
    let files ← (← x.readWords (← wordSum a 20) n.toNat).mapM fun offset => ofField (x.fileAt offset.toNat)
    let error ← x.recallString error
    let path ← x.recallString path
    let srcDir ← x.recallString srcDir
    let dir ← x.recallString dir
    return { error, path, srcDir, dir, files }
  | _ => throw .truncatedRecord

def askPackage (x : OpenIndex) (dir : String) : Session (Option PackageEntry) :=
  match x.address? dir with
  | some a => some <$> x.askPackageAt a
  | none => return none

/-- What is remembered when the index is open: the directories' names were read for that. -/
def memory (x : OpenIndex) : Memory :=
  (((wordsAt? x.data 20 x.size).getD []).mapM x.recallString).run.run {} |>.2

end OpenIndex

/-! ## Questioning -/

/-- An index in use, with the files of all packages that were asked for. -/
structure Inquiry where
  strings : List (UInt32 × String)
  reads : List (Nat × Nat)
  files : List FileEntry

namespace Inquiry

def memory (s : Inquiry) (located : Located) : Memory := { strings := s.strings, reads := s.reads, located }

def ofMemory (m : Memory) (files : List FileEntry) : Inquiry := { strings := m.strings, reads := m.reads, files }

def start (x : OpenIndex) : Inquiry := ofMemory x.memory []

def found : Except Fault (Option PackageEntry) → List FileEntry
  | .ok (some p) => p.files
  | _ => []

/-- Asks for a package; its files can be asked from then on. -/
def package (s : Inquiry) (x : OpenIndex) (dir : String) : Except Fault (Option PackageEntry) × Inquiry :=
  let (answer, m) := (x.askPackage dir).run.run (s.memory {})
  (answer, ofMemory m (s.files ++ found answer))

def ask {α : Type} (s : Inquiry) (i : Fin s.files.length) (q : Question α) : Except Fault α × Inquiry :=
  let f := s.files.get i
  let (answer, m) := (f.ask q).run.run (s.memory f.located)
  (answer, ofMemory m (s.files.set i { f with located := m.located }))

/-- The states that questions lead to, whether they are answered or not. -/
inductive Reached (x : OpenIndex) : Inquiry → Prop
  | start : Reached x (start x)
  | package {s : Inquiry} (dir : String) : Reached x s → Reached x (s.package x dir).2
  | ask {s : Inquiry} (i : Fin s.files.length) {α : Type} (q : Question α) : Reached x s → Reached x (s.ask i q).2

end Inquiry

end PackageIndex
