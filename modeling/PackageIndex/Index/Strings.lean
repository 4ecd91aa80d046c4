/-
  PackageIndex.Index.Strings — the strings of an index, each kept once.

  The table is a zero byte, then each string with a zero byte behind it. A string is
  named by its offset in the table, the empty one by 0. `StringPool` is the table as it
  grows while records are written, `StringTable` the one that a reader has.
-/

import PackageIndex.Failure
import PackageIndex.Index.Word

namespace PackageIndex

abbrev FitsWord (n : Nat) : Prop := n < 0x100000000

/-! ## Writing -/

structure StringPool where
  /-- The strings and their offsets, the newest first. -/
  entries : List (String × Nat) := []
  /-- The size of the table. -/
  size : Nat := 1
  deriving DecidableEq, Repr, Inhabited

namespace StringPool

/-- The offset of a string, which joins the pool if it is new. -/
def intern (s : String) (p : StringPool) : Except FormatError (UInt32 × StringPool) :=
  if s = "" then .ok (0, p)
  else
    match p.entries.lookup s with
    | some offset => .ok (offset.toUInt32, p)
    | none =>
      if s.toList.contains '\x00' then .error (.nulInString s)
      else if FitsWord p.size then
        .ok (p.size.toUInt32, ⟨(s, p.size) :: p.entries, p.size + Utf8.size s.toList + 1⟩)
      else .error .tableTooLong

def bytes (p : StringPool) : List UInt8 := 0 :: p.entries.reverse.flatMap fun e => Utf8.ofString e.1 ++ [0]

end StringPool

/-! ## Reading -/

structure StringTable where
  bytes : Array UInt8
  deriving DecidableEq, Repr, Inhabited

namespace StringTable

def get (t : StringTable) (offset : UInt32) : Except FormatError String :=
  if offset = 0 then .ok ""
  else if t.bytes.size ≤ offset.toNat then .error (.stringPastEnd offset.toNat t.bytes.size)
  else
    match untilZero? t.bytes offset.toNat with
    | none => .error (.unendedString offset.toNat)
    | some s =>
      match Utf8.decode s with
      | .ok cs => .ok (String.ofList cs)
      | .error fault => .error (.notUtf8 offset.toNat fault)

end StringTable

end PackageIndex
