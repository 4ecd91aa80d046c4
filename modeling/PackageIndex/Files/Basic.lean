/-
  PackageIndex.Files.Basic — a tree of files seen from one of its directories.

  A path is followed piece by piece, and through the links on its way; a link goes on
  from its own directory. `locate` gives the place where a path leads. Everything may be read,
  and a path may be as long as it has to be.
-/

import PackageIndex.Failure
import PackageIndex.Files.Tree

namespace PackageIndex

structure Files where
  root : Tree
  /-- The place of the working directory. -/
  cwd : List ByteString := []
  proper : root.isProper = true

namespace Files

instance : Inhabited Files := ⟨{ root := .dir [], proper := rfl }⟩

def cwdPath (fs : Files) : ByteString := ⟨ByteString.slash :: (ByteString.spelt fs.cwd).bytes⟩

/-- The files with something at a place, if names can lead there. -/
def put? (fs : Files) (new : Tree) (names : List ByteString) : Option Files :=
  if h : new.isProper = true ∧ ∀ n ∈ names, n.IsName then
    some { fs with root := .put new names fs.root, proper := Tree.isProper_put h.1 h.2 fs.proper }
  else none

/-! ## Following paths -/

def maxLinks : Nat := 40

def steps (path : ByteString) : List ByteString := path.pieces.filter fun piece => piece ≠ "" ∧ piece ≠ "."

/-- Where a path starts from that is met at `here`. -/
def startOf (here : List ByteString) (path : ByteString) : List ByteString := if path.isAbsolute then [] else here

structure Reached where
  place : List ByteString
  links : Nat
  deriving DecidableEq

/-- Where pieces lead from `here`, through `links` links at most. Every piece, an empty one at the end
too, asks for a directory to start from. -/
def follow (t : Tree) (links : Nat) (here : List ByteString) : List ByteString → Except IoFault Reached
  | [] => .ok ⟨here, links⟩
  | piece :: rest =>
    match t.entriesAt? here with
    | none => .error .notDirectory
    | some entries =>
      if piece = "" ∨ piece = "." then follow t links here rest
      else if piece = ".." then follow t links here.dropLast rest
      else
        match entries.lookup piece with
        | none => .error .notFound
        | some (.link target) =>
          match links with
          | 0 => .error .tooManyLinks
          | links + 1 => follow t links (startOf here target) (target.pieces ++ rest)
        | some _ => follow t links (here ++ [piece]) rest
termination_by pieces => (links, pieces.length)

def locate (fs : Files) (path : ByteString) : Except IoFault Reached :=
  if path = "" then .error .notFound
  else if 0 ∈ path.bytes then .error .zeroInPath
  else follow fs.root maxLinks (startOf fs.cwd path) path.pieces

def ofList (cwd : List ByteString) (l : List (ByteString × Tree)) : Files :=
  let add (fs : Files) (new : Tree) (names : List ByteString) : Files := (fs.put? new names).getD fs
  l.foldl (fun fs e => add fs e.2 (startOf cwd e.1 ++ steps e.1)) { add default (.dir []) cwd with cwd }

def find (fs : Files) (path : ByteString) : Except IoFault Tree := do
  match fs.root.at? (← fs.locate path).place with
  | some t => return t
  | none => throw .notFound

def isDir (fs : Files) (path : ByteString) : Bool :=
  match fs.find path with
  | .ok (.dir _) => true
  | _ => false

def read (fs : Files) (path : ByteString) : Except IoFault (List UInt8) := do
  match ← fs.find path with
  | .file content => return content
  | _ => throw .isDirectory

/-! ## Writing -/

/-- A change of files. What was done before it failed stays done. -/
abbrev Change (α : Type) := ExceptT IoFault (StateM Files) α

def place (new : Tree) (names : List ByteString) : Change Unit := do
  match (← get).put? new names with
  | some fs => set fs
  | none => throw .zeroInPath

def directoryAt (t : Tree) (here pieces : List ByteString) :
    Except IoFault (List ByteString × List (ByteString × Tree)) := do
  let there := (← follow t maxLinks here pieces).place
  match t.entriesAt? there with
  | some entries => return (there, entries)
  | none => throw .notDirectory

/-- Makes a directory in the one that `up` leads to. A link of the name keeps it from being made,
wherever the link leads. -/
def makeDir (here up : List ByteString) (name : ByteString) : Change Unit := do
  if ∃ piece ∈ name :: up, 0 ∈ piece.bytes then throw .zeroInPath
  let (there, entries) ← directoryAt (← get).root here up
  if name = ".." ∨ (entries.lookup name).isSome then throw .exists
  place (.dir []) (there ++ [name])

def ensureDir (here up : List ByteString) (name : ByteString) : Change Unit :=
  tryCatch (makeDir here up name) fun fault => do
    if (directoryAt (← get).root here (up ++ [name])).isOk then return else throw fault

/-- Makes sure of the directory that pieces lead to, the last piece being given first. Only where
it has nothing to be made in are the pieces before the last one looked at by themselves. -/
def makeDirs (here : List ByteString) : List ByteString → Change Unit
  | [] => return
  | name :: up =>
    tryCatch (ensureDir here up.reverse name) fun fault => do
      if fault ≠ .notFound then throw fault
      makeDirs here up
      ensureDir here up.reverse name

/-- Writes a file in place of what its path names: of a link itself, not of what it leads to.
Directories are made for it, told by the pieces that lead somewhere else; a last dot leads
nowhere else, so what stands before it is not made, and yet has to be there. -/
def write (path : ByteString) (content : List UInt8) : Change Unit := do
  if path = "" then throw .notFound
  let here := startOf (← get).cwd path
  makeDirs here (steps path).reverse.tail
  match path.pieces.reverse.dropWhile fun piece : ByteString => piece = "" with
  | [] => throw .busy
  | name :: up =>
    let (there, entries) ← directoryAt (← get).root here up.reverse
    if name = "." ∨ name = ".." then throw .busy
    if path.bytes.getLast? = some ByteString.slash then throw .notDirectory
    match entries.lookup name with
    | some (.dir _) => throw .isDirectory
    | _ => place (.file content) (there ++ [name])

end Files

end PackageIndex
