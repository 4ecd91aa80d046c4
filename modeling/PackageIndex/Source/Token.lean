/-
  PackageIndex.Source.Token — tokens with their places and the comments in front of them.

  A run of comments between two tokens is grouped: a comment joins the group before it
  if it begins on the group's last line or the next one. A group that begins on the line
  of the token before it belongs to that token, and is joined by none. The group that
  ends on the line above a token documents it.
-/

import PackageIndex.Source.Comment
import PackageIndex.Source.Lexeme
import PackageIndex.Source.Place

namespace PackageIndex.Source

/-! ## Groups of comments -/

structure Group where
  comments : List (List Char)
  endLine : Nat
  /-- Begins on the line of the token before it. -/
  trails : Bool
  deriving DecidableEq, Repr

/-- The group after a comment that stands on the lines from `first` to `last`, where the token
before it stands on `tokenLine`. -/
def addComment (g : Option Group) (s : List Char) (tokenLine first last : Nat) : Option Group :=
  match g with
  | some g =>
    if ¬ g.trails ∧ first ≤ g.endLine + 1 then some { g with comments := g.comments ++ [s], endLine := last }
    else some ⟨[s], last, first == tokenLine⟩
  | none => some ⟨[s], last, first == tokenLine⟩

def docAbove (g : Option Group) (line : Nat) : String :=
  match g with
  | some g => if ¬ g.trails ∧ g.endLine + 1 = line then String.ofList (groupText g.comments) else ""
  | none => ""

/-! ## Tokens -/

inductive TokenKind where
  | identifier
  | string
  | other
  | eof
  deriving DecidableEq, Repr

structure Token where
  kind : TokenKind
  text : List Char
  place : Place
  doc : String
  deriving DecidableEq, Repr

structure LexicalError where
  what : Unended
  place : Place
  deriving DecidableEq, Repr

inductive Tokens where
  | token (t : Token) (rest : Tokens)
  | eof (p : Place)
  | broken (e : LexicalError)
  deriving Repr

namespace Tokens

/-- Reads lexemes from `p` on, after a token on `tokenLine` (0 for none) and the comments `g`. -/
def ofLexemesFrom (p : Place) (tokenLine : Nat) (g : Option Group) : List Lexeme → Tokens
  | [] => .eof p
  | .space c :: ls => ofLexemesFrom (p.next c) tokenLine g ls
  | .newline :: ls => ofLexemesFrom (p.next '\n') tokenLine g ls
  | .lineComment s :: ls =>
    ofLexemesFrom (p.after s) tokenLine (addComment g s tokenLine p.line (p.after s).line) ls
  | .blockComment s :: ls =>
    ofLexemesFrom (p.after s) tokenLine (addComment g s tokenLine p.line (p.after s).line) ls
  | .identifier s :: ls =>
    .token ⟨.identifier, s, p, docAbove g p.line⟩ (ofLexemesFrom (p.after s) p.line none ls)
  | .interpreted s :: ls =>
    .token ⟨.string, s, p, docAbove g p.line⟩ (ofLexemesFrom (p.along s) p.line none ls)
  | .raw s :: ls => .token ⟨.string, s, p, docAbove g p.line⟩ (ofLexemesFrom (p.after s) p.line none ls)
  | .other c :: ls => .token ⟨.other, [c], p, docAbove g p.line⟩ (ofLexemesFrom (p.next c) p.line none ls)
  | .unended what _ :: _ => .broken ⟨what, p⟩

def ofLexemes (ls : List Lexeme) : Tokens := ofLexemesFrom {} 0 none ls

def length : Tokens → Nat
  | .token _ rest => rest.length + 1
  | _ => 0

end Tokens

end PackageIndex.Source
