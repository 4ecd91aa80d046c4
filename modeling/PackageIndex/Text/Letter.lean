/-
  PackageIndex.Text.Letter — classes of characters.

  Each class has a short answer for ASCII and a table of spans for the rest.
-/

import PackageIndex.Text.Alphabetic
import PackageIndex.Text.Numeric
import PackageIndex.Text.Uppercase

namespace PackageIndex

def isAlphabetic (c : Char) : Bool :=
  if c.toNat < 0x80 then c.isAlpha else alphabeticRanges.has c

def isAlphanumeric (c : Char) : Bool :=
  if c.toNat < 0x80 then c.isAlphanum else alphabeticRanges.has c || numericRanges.has c

def isUppercase (c : Char) : Bool :=
  if c.toNat < 0x80 then c.isUpper else uppercaseRanges.has c

def isControl (c : Char) : Bool := c.toNat < 0x20 || (0x7F ≤ c.toNat && c.toNat < 0xA0)

end PackageIndex
