/-
  PackageIndex.Source.Embed — the patterns of `//go:embed` comments.

  A directive is a line comment with nothing but blanks before it on its line. To find
  them a text is cut into pieces, in which string, rune and raw literals and block
  comments are passed over as wholes; one that is not ended is passed over to the end of
  the text, a quoted literal to the end of its line.
-/

import PackageIndex.Record.Basic
import PackageIndex.Source.Lexeme
import PackageIndex.Source.Literal
import PackageIndex.Source.Place
import PackageIndex.Text.Blank
import PackageIndex.Text.Utf8

namespace PackageIndex.Source

/-! ## Pieces -/

inductive Piece where
  /-- A blank, tab or carriage return. -/
  | space (c : Char)
  | newline
  | lineComment (s : List Char)
  /-- A block comment or raw literal, to its end or that of the text. -/
  | block (s : List Char)
  /-- A string or rune literal, to its end or that of its line. -/
  | quoted (s : List Char)
  | other (c : Char)
  deriving DecidableEq, Repr

def Piece.text : Piece → List Char
  | .space c => [c]
  | .newline => ['\n']
  | .lineComment s => s
  | .block s => s
  | .quoted s => s
  | .other c => [c]

/-- How many characters belong to a quoted literal, of the text after the opening quote. -/
def quotedLength (quote : Char) : List Char → Nat
  | [] => 0
  | ['\\'] => 1
  | '\\' :: _ :: s => quotedLength quote s + 2
  | c :: s => if c = '\n' then 0 else if c = quote then 1 else quotedLength quote s + 1

def pieces : List Char → List Piece
  | [] => []
  | '\n' :: s => .newline :: pieces s
  | '/' :: '/' :: s =>
    .lineComment ('/' :: '/' :: s.takeWhile (· ≠ '\n')) :: pieces (s.dropWhile (· ≠ '\n'))
  | '/' :: '*' :: s =>
    match _h : cutAt? ['*', '/'] s with
    | none => [.block ('/' :: '*' :: s)]
    | some (body, rest) => .block ('/' :: '*' :: body ++ ['*', '/']) :: pieces rest
  | '`' :: s =>
    match _h : cutAt? ['`'] s with
    | none => [.block ('`' :: s)]
    | some (body, rest) => .block ('`' :: body ++ ['`']) :: pieces rest
  | c :: s =>
    if c = ' ' ∨ c = '\t' ∨ c = '\r' then .space c :: pieces s
    else if c = '"' ∨ c = '\'' then
      .quoted (c :: s.take (quotedLength c s)) :: pieces (s.drop (quotedLength c s))
    else .other c :: pieces s
termination_by s => s.length
decreasing_by
  all_goals simp only [List.length_cons]
  · omega
  · have := length_dropWhile_le (· ≠ '\n') s; omega
  · have := length_of_cutAt? _h; simp only [List.length_cons, List.length_nil] at this; omega
  · have := length_of_cutAt? _h; simp only [List.length_cons, List.length_nil] at this; omega
  · omega
  · simp only [List.length_drop]; omega
  · omega

/-! ## Patterns -/

/-- How many characters there are up to the closing quote and with it, of the text after the
opening one. Between quotes, but not between backquotes, a backslash goes with the next character. -/
def literalLength? (quote : Char) : List Char → Option Nat
  | [] => none
  | [c] => if c = quote then some 1 else none
  | c :: d :: s =>
    if c = '\\' ∧ quote = '"' then (literalLength? quote s).map (· + 2)
    else if c = quote then some 1
    else (literalLength? quote (d :: s)).map (· + 1)

/-- The patterns among the arguments of a directive, each with the byte at which it is written,
up to the first literal that is malformed. -/
def embedPatterns (offset : Nat) : List Char → List (Nat × List Char)
  | [] => []
  | c :: s =>
    if isBlank c then embedPatterns (offset + c.utf8Size) s
    else if c = '"' ∨ c = '`' then
      match literalLength? c s with
      | none => []
      | some n =>
        match literalText? (c :: s.take n) with
        | none => []
        | some pattern =>
          (offset, pattern) :: embedPatterns (offset + Utf8.size (c :: s.take n)) (s.drop n)
    else
      let bare := c :: s.takeWhile (!isBlank ·)
      (offset, bare) :: embedPatterns (offset + Utf8.size bare) (s.dropWhile (!isBlank ·))
termination_by s => s.length
decreasing_by
  all_goals simp only [List.length_cons]
  · omega
  · simp only [List.length_drop]; omega
  · have := length_dropWhile_le (!isBlank ·) s; omega

def directive : List Char := "//go:embed".toList

def embedsOfComment (filename : String) (p : Place) (s : List Char) : List Embed :=
  match directive.isPrefixOf? (trimEnd (· == '\r') s) with
  | some (c :: args) =>
    if c = ' ' ∨ c = '\t' then
      (embedPatterns directive.length (c :: args)).map fun (at_, pattern) =>
        { pattern := String.ofList pattern
          position :=
            { filename
              offset := (p.offset + at_).toUInt32
              line := p.line.toUInt32
              column := (p.column + at_).toUInt32 } }
    else []
  | _ => []

/-- The embeds among pieces that begin at `p`; `clear` says that only blanks stand before them on the line. -/
def embedsOfPieces (filename : String) (p : Place) (clear : Bool) : List Piece → List Embed
  | [] => []
  | .space c :: ps => embedsOfPieces filename (p.next c) clear ps
  | .newline :: ps => embedsOfPieces filename (p.next '\n') true ps
  | .lineComment s :: ps =>
    (if clear then embedsOfComment filename p s else []) ++ embedsOfPieces filename (p.after s) clear ps
  | .block s :: ps => embedsOfPieces filename (p.after s) false ps
  | .quoted s :: ps => embedsOfPieces filename (p.along s) false ps
  | .other c :: ps => embedsOfPieces filename (p.next c) false ps

def embedsOfSource (filename : String) (source : List Char) : List Embed :=
  embedsOfPieces filename {} true (pieces source)

end PackageIndex.Source
