/-
  PackageIndex.Text.Quoted — text between quotes, as messages show it.

  The quote itself and the backslash stand behind a backslash, four controls have a
  letter, and a character that shows nothing of its own, or would join onto the one
  before it, is spelt by its code point.
-/

import PackageIndex.Text.Extend
import PackageIndex.Text.Unprintable

namespace PackageIndex.Quoted

def spelt (c : Char) : List Char :=
  ['\\', 'u', '\x7b'] ++ Nat.toDigits 16 c.toNat ++ ['\x7d']

def isPlain (c : Char) : Bool :=
  if c.toNat < 0x80 then 0x20 ≤ c.toNat && c.toNat < 0x7F
  else !extendRanges.has c && !unprintableRanges.has c

def shown (quote c : Char) : List Char :=
  match c with
  | '\x00' => ['\\', '0']
  | '\t' => ['\\', 't']
  | '\r' => ['\\', 'r']
  | '\n' => ['\\', 'n']
  | '\\' => ['\\', '\\']
  | c => if c = quote then ['\\', c] else if isPlain c then [c] else spelt c

def ofString (s : String) : String :=
  String.ofList ('"' :: s.toList.flatMap (shown '"') ++ ['"'])

def ofChar (c : Char) : String := String.ofList ('\'' :: shown '\'' c ++ ['\''])

end PackageIndex.Quoted
