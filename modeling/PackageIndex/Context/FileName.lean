/-
  PackageIndex.Context.FileName — what a file's name says about where it builds.

  The name is read up to its first dot and from its first underscore on. A last piece
  `test` is passed over; a system and an architecture at the end, or one of the two,
  restrict the file to where these tags are satisfied. A pair asks about the system only
  where the architecture is right.
-/

import PackageIndex.Context.Basic

namespace PackageIndex

def knownSystems : List String :=
  ["aix", "android", "darwin", "dragonfly", "freebsd", "hurd", "illumos", "ios", "js", "linux", "nacl",
   "netbsd", "openbsd", "plan9", "solaris", "wasip1", "windows", "zos"]

def knownArchitectures : List String :=
  ["386", "amd64", "amd64p32", "arm", "armbe", "arm64", "arm64be", "loong64", "mips", "mipsle", "mips64",
   "mips64le", "mips64p32", "mips64p32le", "ppc", "ppc64", "ppc64le", "riscv", "riscv64", "s390", "s390x",
   "sparc", "sparc64", "wasm"]

inductive NameTags where
  | none
  | one (tag : String)
  | pair (system architecture : String)
  deriving DecidableEq, Repr

namespace NameTags

/-- The pieces between underscores, the last one first. The part of the name before the
first underscore is none of them. -/
def lastPieces (name : String) : List String :=
  let stem := name.toList.takeWhile (· ≠ '.')
  (((stem.dropWhile (· ≠ '_')).splitOn '_').map String.ofList).reverse

def ofPieces : List String → NameTags
  | a :: s :: _ =>
    if knownSystems.contains s && knownArchitectures.contains a then .pair s a
    else if knownSystems.contains a || knownArchitectures.contains a then .one a
    else .none
  | [a] => if knownSystems.contains a || knownArchitectures.contains a then .one a else .none
  | [] => .none

def ofName (name : String) : NameTags :=
  match lastPieces name with
  | "test" :: rest => ofPieces rest
  | l => ofPieces l

open BuildContext in
def satisfied (ctx : BuildContext) : NameTags → Asking Bool
  | .none => return true
  | .one tag => ask ctx tag
  | .pair system architecture => do
    if ← ask ctx architecture then ask ctx system else return false

end NameTags

end PackageIndex
