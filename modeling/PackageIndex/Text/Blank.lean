/-
  PackageIndex.Text.Blank — white space, and the text without it.

  Two sets are in use: the 25 characters of the property White_Space where text is read,
  and five bytes of ASCII where bytes are. Trimming and cutting are told which.
-/

import PackageIndex.Text.Ranges

namespace PackageIndex

def blankRanges : Ranges :=
  [(0x09, 0x0D), (0x20, 0x20), (0x85, 0x85), (0xA0, 0xA0), (0x1680, 0x1680), (0x2000, 0x200A),
   (0x2028, 0x2029), (0x202F, 0x202F), (0x205F, 0x205F), (0x3000, 0x3000)]

def isBlank (c : Char) : Bool := blankRanges.has c

def isBlankByte (b : UInt8) : Bool := b == 0x20 || b == 0x09 || b == 0x0A || b == 0x0C || b == 0x0D

section Trim
variable {α : Type} (p : α → Bool)

def trimStart (l : List α) : List α := l.dropWhile p

def trimEnd (l : List α) : List α := (l.reverse.dropWhile p).reverse

def trim (l : List α) : List α := trimEnd p (trimStart p l)

end Trim

/-- The pieces between white space; white space at the ends bounds no piece. -/
def words (s : List Char) : List (List Char) := (s.splitOnP isBlank).filter (· ≠ [])

end PackageIndex
