/-
  PackageIndex.Index.Interning — a string table while it is built and while it is read.

  The builder has the bytes of the table and a note of where each string stands in them. A
  string that cannot be taken in is refused, and others can be given after it. A reader has the
  bytes and remembers each string that it has found. The answers are those of `Index.Strings`
  (`TableBuilder.give_ofPool`, `StringTable.keeps_recalled`).
-/

import PackageIndex.Index.Strings

namespace PackageIndex

/-! ## Building -/

structure TableBuilder where
  /-- The table; its first byte ends the empty string. -/
  bytes : Array UInt8 := #[0]
  /-- Where each string stands, the newest first. -/
  offsets : List (String × UInt32) := []
  deriving DecidableEq, Repr, Inhabited

namespace TableBuilder

abbrev Building (α : Type) := ExceptT FormatError (StateM TableBuilder) α

def intern (s : String) : Building UInt32 := do
  if s = "" then return 0
  match (← get).offsets.lookup s with
  | some offset => return offset
  | none =>
    if (Utf8.ofString s).contains 0 then throw (.nulInString s)
    let size := (← get).bytes.size
    if ¬ FitsWord size then throw .tableTooLong
    modify fun b => { b with bytes := b.bytes ++ Utf8.ofString s }
    modify fun b => { b with bytes := b.bytes.push 0 }
    modify fun b => { b with offsets := (s, size.toUInt32) :: b.offsets }
    return size.toUInt32

/-- Gives a string to the builder, which goes on whether it is taken or not. -/
def give (s : String) : StateM TableBuilder (Except FormatError UInt32) := (intern s).run

end TableBuilder

/-! ## Reading -/

namespace StringTable

/-- The table of some bytes, of which the first ends the empty string. -/
def ofBytes (bytes : Array UInt8) : Except FormatError StringTable :=
  if bytes[0]? = some 0 then .ok ⟨bytes⟩ else .error .truncatedTable

abbrev Memo := List (UInt32 × String)

def recalled (t : StringTable) (offset : UInt32) : ExceptT FormatError (StateM Memo) String := do
  if offset = 0 then return ""
  match (← getThe Memo).lookup offset with
  | some s => return s
  | none =>
    let s ← liftM (t.get offset)
    modify ((offset, s) :: ·)
    return s

/-- Looks up an offset, and goes on whether there is a string at it or not. -/
def look (t : StringTable) (offset : UInt32) : StateM Memo (Except FormatError String) := (t.recalled offset).run

end StringTable

end PackageIndex
