/-
  PackageIndex.Json.Basic — JSON values as they are spelt.

  Numbers and strings keep their spelling, members their order and repeats. What a
  string's spelling means is `text?`: half of a surrogate pair means nothing. `ofString`
  spells a text with as few escapes as there can be.
-/

import PackageIndex.Text.Numeral

namespace PackageIndex

inductive Json where
  | null
  | bool (b : Bool)
  | number (digits : List Char)
  /-- What stands between the quotes. -/
  | string (body : List Char)
  | array (items : List Json)
  | object (members : List (List Char × Json))
  deriving Inhabited

namespace Json

/-! ## Strings -/

def escapes : List (Char × Char) :=
  [('"', '"'), ('\\', '\\'), ('/', '/'), ('b', '\x08'), ('f', '\x0c'), ('n', '\n'), ('r', '\r'), ('t', '\t')]

def hexUnit? (s : List Char) : Option (Nat × List Char) := do
  let n ← numeral? 16 4 s
  return (n, s.drop 4)

def isHighHalf (n : Nat) : Bool := 0xD800 ≤ n && n < 0xDC00

def isLowHalf (n : Nat) : Bool := 0xDC00 ≤ n && n < 0xE000

def unit? (s : List Char) : Option (Char × List Char) := do
  let (n, rest) ← hexUnit? s
  if isHighHalf n then
    let rest ← ['\\', 'u'].isPrefixOf? rest
    let (m, rest) ← hexUnit? rest
    if isLowHalf m then return (Char.ofNat (0x10000 + (n - 0xD800) * 0x400 + (m - 0xDC00)), rest) else none
  else if isLowHalf n then none
  else return (Char.ofNat n, rest)

/-- The characters that a string's spelling means, given a bound on their number. -/
def textUpTo : Nat → List Char → Option (List Char)
  | _, [] => some []
  | 0, _ => none
  | n + 1, '\\' :: 'u' :: s => do
    let (c, rest) ← unit? s
    return c :: (← textUpTo n rest)
  | n + 1, '\\' :: e :: s => do
    let c ← escapes.lookup e
    return c :: (← textUpTo n s)
  | n + 1, c :: s => do return c :: (← textUpTo n s)

def text? (body : List Char) : Option String := (textUpTo body.length body).map String.ofList

/-- A control character without an escape of its own is spelt by its number. -/
def spellChar (c : Char) : List Char :=
  match c with
  | '"' => ['\\', '"']
  | '\\' => ['\\', '\\']
  | '\x08' => ['\\', 'b']
  | '\x0c' => ['\\', 'f']
  | '\n' => ['\\', 'n']
  | '\r' => ['\\', 'r']
  | '\t' => ['\\', 't']
  | c =>
    if c.toNat < 0x20 then
      ['\\', 'u', '0', '0', Nat.digitChar (c.toNat / 16), Nat.digitChar (c.toNat % 16)]
    else [c]

def ofString (s : String) : Json := .string (s.toList.flatMap spellChar)

def ofNat (n : Nat) : Json := .number (toString n).toList

def ofStrings (l : List String) : Json := .array (l.map ofString)

end Json

end PackageIndex
