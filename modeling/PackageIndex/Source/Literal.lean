/-
  PackageIndex.Source.Literal — string literals and what they stand for.

  A raw literal stands between backquotes and loses its carriage returns. An interpreted
  one stands between quotes and may hold escapes: a letter, or a code point in octal
  (below 256) or hexadecimal.
-/

import PackageIndex.Text.Numeral

namespace PackageIndex.Source

/-! ## Escapes -/

/-- The character at a code point; surrogates have none. -/
def charAt? (n : Nat) : Option Char :=
  if n.isValidChar then some (Char.ofNat n) else none

def namedEscape? : Char → Option Char
  | 'a' => some '\x07'
  | 'b' => some '\x08'
  | 'f' => some '\x0c'
  | 'n' => some '\n'
  | 'r' => some '\r'
  | 't' => some '\t'
  | 'v' => some '\x0b'
  | '\\' => some '\\'
  | '"' => some '"'
  | _ => none

/-- The character that an escape stands for and how many characters spell it, of the text after
the backslash. -/
def escape? : List Char → Option (Char × Nat)
  | [] => none
  | c :: s =>
    match namedEscape? c with
    | some d => some (d, 1)
    | none =>
      match c with
      | 'x' => ((numeral? 16 2 s).bind charAt?).map (·, 3)
      | 'u' => ((numeral? 16 4 s).bind charAt?).map (·, 5)
      | 'U' => ((numeral? 16 8 s).bind charAt?).map (·, 9)
      | c => (((numeral? 8 3 (c :: s)).filter (· < 256)).bind charAt?).map (·, 3)

def unescape? : List Char → Option (List Char)
  | [] => some []
  | '"' :: _ => none
  | '\n' :: _ => none
  | '\\' :: s =>
    match escape? s with
    | none => none
    | some (c, n) => (unescape? (s.drop n)).map (c :: ·)
  | c :: s => (unescape? s).map (c :: ·)
termination_by s => s.length
decreasing_by all_goals simp only [List.length_drop, List.length_cons]; omega

/-! ## Literals -/

def dropClosing? (c : Char) (s : List Char) : Option (List Char) :=
  if s.getLast? = some c then some s.dropLast else none

def literalText? : List Char → Option (List Char)
  | '`' :: s => do
    let body ← dropClosing? '`' s
    if body.contains '`' then none else some (body.filter (· ≠ '\r'))
  | '"' :: s => do unescape? (← dropClosing? '"' s)
  | _ => none

end PackageIndex.Source
