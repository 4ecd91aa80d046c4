/-
  PackageIndex.Files.ByteString — names and paths as the system has them.

  They are bytes, and need not be text. `lossy` is what is recorded and shown of them, with
  U+FFFD for what is no text; the system knows what it was taken from by that only if it was text.
-/

import PackageIndex.Path
import PackageIndex.Text.Utf8

namespace PackageIndex

structure ByteString where
  bytes : List UInt8
  deriving DecidableEq, Repr, Inhabited

namespace ByteString

def ofString (s : String) : ByteString := ⟨Utf8.ofString s⟩

instance : Coe String ByteString := ⟨ofString⟩

def lossy (b : ByteString) : String := String.ofList (Utf8.lossy b.bytes)

def IsText (b : ByteString) : Prop := (b.lossy : ByteString) = b

instance (b : ByteString) : Decidable b.IsText := inferInstanceAs (Decidable ((b.lossy : ByteString) = b))

/-! ## Paths -/

abbrev slash : UInt8 := 0x2F

def isAbsolute (p : ByteString) : Bool := p.bytes.head? == some slash

def join (dir path : ByteString) : ByteString := ⟨Path.joinedBy slash dir.bytes path.bytes⟩

def pieces (p : ByteString) : List ByteString := (p.bytes.splitOn slash).map .mk

def spelt (names : List ByteString) : ByteString := ⟨[slash].intercalate (names.map (·.bytes))⟩

/-- The path `p` from the root, a relative one being taken below `cwd`. Two slashes in front mean
something of their own and stay, as does a slash at the end. -/
def absolute (cwd : ByteString) (p : String) : ByteString :=
  let start : ByteString := match p.toList with
    | '/' :: '/' :: '/' :: _ => "/"
    | '/' :: '/' :: _ => "//"
    | '/' :: _ => "/"
    | _ => cwd
  let below := (Path.components p).filter fun c => c ≠ .root ∧ c ≠ .here
  let path := below.foldl (fun path c => path.join c.spelling) start
  if p.toList.getLast? = some '/' then path.join "" else path

/-- What an entry of a directory can be called. -/
structure IsName (b : ByteString) : Prop where
  ne_empty : b ≠ ""
  ne_dot : b ≠ "."
  ne_dots : b ≠ ".."
  no_slash : slash ∉ b.bytes
  no_nul : 0 ∉ b.bytes

instance (b : ByteString) : Decidable (IsName b) :=
  decidable_of_iff (b ≠ "" ∧ b ≠ "." ∧ b ≠ ".." ∧ slash ∉ b.bytes ∧ 0 ∉ b.bytes)
    ⟨fun ⟨hempty, hdot, hdots, hslash, hnul⟩ => ⟨hempty, hdot, hdots, hslash, hnul⟩,
      fun h => ⟨h.ne_empty, h.ne_dot, h.ne_dots, h.no_slash, h.no_nul⟩⟩

end ByteString

end PackageIndex
