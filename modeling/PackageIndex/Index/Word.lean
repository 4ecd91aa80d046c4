/-
  PackageIndex.Index.Word — 32-bit words in bytes, the lowest byte first.

  - `wordAt?_bytesOfWord`: a word is read back where it was written.
-/

import PackageIndex.Text.Utf8

namespace PackageIndex

def bytesOfWord (w : UInt32) : List UInt8 :=
  [w.toNat % 0x100, w.toNat / 0x100 % 0x100, w.toNat / 0x10000 % 0x100, w.toNat / 0x1000000].map Nat.toUInt8

def bytesOfWords (ws : List UInt32) : List UInt8 := ws.flatMap bytesOfWord

def wordAt? (data : Array UInt8) (a : Nat) : Option UInt32 := do
  let b0 ← data[a]?
  let b1 ← data[a + 1]?
  let b2 ← data[a + 2]?
  let b3 ← data[a + 3]?
  return (b0.toNat + b1.toNat * 0x100 + b2.toNat * 0x10000 + b3.toNat * 0x1000000).toUInt32

def wordsAt? (data : Array UInt8) (a : Nat) : (n : Nat) → Option (List UInt32)
  | 0 => some []
  | n + 1 => do
    let w ← wordAt? data a
    return w :: (← wordsAt? data (a + 4) n)

/-- The bytes from address `a` up to the next zero; `none` if there is no zero. -/
def untilZero? (data : Array UInt8) (a : Nat) : Option (List UInt8) :=
  if h : a < data.size then
    if data[a] = 0 then some [] else (untilZero? data (a + 1)).map (data[a] :: ·)
  else none
termination_by data.size - a

/-! ## Reading back -/

theorem length_bytesOfWord (w : UInt32) : (bytesOfWord w).length = 4 := rfl

theorem wordAt?_bytesOfWord (before after : List UInt8) (w : UInt32) :
    wordAt? (before ++ bytesOfWord w ++ after).toArray before.length = some w := by
  have hw := UInt32.toNat_lt w
  have at_ (i : Nat) (hi : i < 4) :
      (before ++ bytesOfWord w ++ after).toArray[before.length + i]? = (bytesOfWord w)[i]? := by
    rw [List.getElem?_toArray, List.append_assoc, List.getElem?_append_right (by omega),
      List.getElem?_append_left (by rw [length_bytesOfWord]; omega)]
    congr 1
    omega
  have h0 := at_ 0 (by omega)
  have h1 := at_ 1 (by omega)
  have h2 := at_ 2 (by omega)
  have h3 := at_ 3 (by omega)
  simp only [Nat.add_zero] at h0
  unfold wordAt?
  rw [h0, h1, h2, h3]
  simp only [bytesOfWord, List.map_cons, List.map_nil]
  simp only [List.getElem?_cons_zero, List.getElem?_cons_succ, Option.bind_eq_bind, Option.bind_some,
    Option.pure_def, Option.some.injEq]
  rw [Utf8.toUInt8_toNat (by omega), Utf8.toUInt8_toNat (by omega), Utf8.toUInt8_toNat (by omega),
    Utf8.toUInt8_toNat (by omega)]
  apply UInt32.toNat_inj.mp
  simp only [Nat.toUInt32, UInt32.toNat_ofNat']
  omega

end PackageIndex
