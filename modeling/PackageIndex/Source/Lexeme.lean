/-
  PackageIndex.Source.Lexeme — a source text cut into lexemes.

  White space, comments, string literals, identifiers, and single characters for all
  else. A comment or literal that is not ended takes the rest of the text. Put together,
  the lexemes are the text (`flatMap_text_lexemes`).
-/

import PackageIndex.Text.Cut
import PackageIndex.Text.Letter

namespace PackageIndex.Source

inductive Unended where
  | comment
  | string
  | rawString
  deriving DecidableEq, Repr

inductive Lexeme where
  /-- A blank, tab or carriage return. -/
  | space (c : Char)
  | newline
  | lineComment (s : List Char)
  | blockComment (s : List Char)
  | identifier (s : List Char)
  | interpreted (s : List Char)
  | raw (s : List Char)
  | other (c : Char)
  | unended (what : Unended) (s : List Char)
  deriving DecidableEq, Repr

namespace Lexeme

def text : Lexeme → List Char
  | .space c => [c]
  | .newline => ['\n']
  | .lineComment s => s
  | .blockComment s => s
  | .identifier s => s
  | .interpreted s => s
  | .raw s => s
  | .other c => [c]
  | .unended _ s => s

def isToken : Lexeme → Bool
  | .identifier _ => true
  | .interpreted _ => true
  | .raw _ => true
  | .other _ => true
  | _ => false

end Lexeme

def isNameStart (c : Char) : Bool := isAlphabetic c || c == '_'

def isNamePart (c : Char) : Bool := isAlphanumeric c || c == '_'

def interpretedLength? : List Char → Option Nat
  | [] => none
  | ['\\'] => none
  | '\\' :: _ :: s => (interpretedLength? s).map (· + 2)
  | c :: s =>
    if c = '\n' then none
    else if c = '"' then some 1
    else (interpretedLength? s).map (· + 1)

theorem length_dropWhile_le (p : Char → Bool) (s : List Char) : (s.dropWhile p).length ≤ s.length :=
  (List.dropWhile_suffix p).length_le

def lexemes : List Char → List Lexeme
  | [] => []
  | '\n' :: s => .newline :: lexemes s
  | '/' :: '/' :: s =>
    .lineComment ('/' :: '/' :: s.takeWhile (· ≠ '\n')) :: lexemes (s.dropWhile (· ≠ '\n'))
  | '/' :: '*' :: s =>
    match _h : cutAt? ['*', '/'] s with
    | none => [.unended .comment ('/' :: '*' :: s)]
    | some (body, rest) => .blockComment ('/' :: '*' :: body ++ ['*', '/']) :: lexemes rest
  | '"' :: s =>
    match interpretedLength? s with
    | none => [.unended .string ('"' :: s)]
    | some n => .interpreted ('"' :: s.take n) :: lexemes (s.drop n)
  | '`' :: s =>
    match _h : cutAt? ['`'] s with
    | none => [.unended .rawString ('`' :: s)]
    | some (body, rest) => .raw ('`' :: body ++ ['`']) :: lexemes rest
  | c :: s =>
    if c = ' ' ∨ c = '\t' ∨ c = '\r' then .space c :: lexemes s
    else if isNameStart c then
      .identifier (c :: s.takeWhile isNamePart) :: lexemes (s.dropWhile isNamePart)
    else .other c :: lexemes s
termination_by s => s.length
decreasing_by
  all_goals simp only [List.length_cons]
  · omega
  · have := length_dropWhile_le (· ≠ '\n') s; omega
  · have := length_of_cutAt? _h; simp only [List.length_cons, List.length_nil] at this; omega
  · simp only [List.length_drop]; omega
  · have := length_of_cutAt? _h; simp only [List.length_cons, List.length_nil] at this; omega
  · omega
  · have := length_dropWhile_le isNamePart s; omega
  · omega

theorem flatMap_text_lexemes (s : List Char) : (lexemes s).flatMap Lexeme.text = s := by
  fun_induction lexemes s <;> simp_all [Lexeme.text, List.takeWhile_append_dropWhile]
  · rename_i h ih
    simpa using append_of_cutAt? h
  · rename_i h ih
    simpa using append_of_cutAt? h

def textAfter : (n : Nat) → List Lexeme → List Char
  | 0, ls => ls.flatMap Lexeme.text
  | _ + 1, [] => []
  | n + 1, l :: ls => textAfter (if l.isToken then n else n + 1) ls

end PackageIndex.Source
