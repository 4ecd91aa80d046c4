/-
  PackageIndex.Constraint.Token — the tokens of a `//go:build` expression.

  A token knows the byte at which it begins, counted from the start of the expression,
  since messages name it.
-/

import PackageIndex.Text.Blank
import PackageIndex.Text.Letter
import PackageIndex.Text.Quoted
import PackageIndex.Text.Utf8

namespace PackageIndex.Constraint

inductive Kind where
  | tag (name : String)
  | opening
  | closing
  | bang
  | andAnd
  | orOr
  deriving DecidableEq, Repr

def Kind.text : Kind → String
  | .tag name => name
  | .opening => "("
  | .closing => ")"
  | .bang => "!"
  | .andAnd => "&&"
  | .orOr => "||"

structure Token where
  kind : Kind
  offset : Nat
  deriving DecidableEq, Repr

inductive SyntaxError where
  | notConstraint
  | unexpectedEnd
  | unexpectedToken (t : Token)
  | unexpectedChar (offset : Nat) (c : Char)
  /-- One sign of an operator that is written with two. -/
  | halfOperator (offset : Nat) (c : Char)
  | unclosed (offset : Nat)
  | doubleNegation
  | doubleNegationIn (term : String)
  | badTerm (term : String)
  deriving DecidableEq, Repr

def SyntaxError.message : SyntaxError → String
  | .notConstraint => "not a build constraint"
  | .unexpectedEnd => "unexpected end of expression"
  | .unexpectedToken t => "unexpected token " ++ t.kind.text ++ " near byte " ++ toString t.offset
  | .unexpectedChar offset c =>
    "invalid syntax at byte " ++ toString offset ++ ": unexpected " ++ Quoted.ofChar c
  | .halfOperator offset c =>
    "invalid syntax at byte " ++ toString offset ++ ": expected " ++ String.ofList [c, c]
  | .unclosed offset => "missing close paren for '(' at byte " ++ toString offset
  | .doubleNegation => "double negation not allowed"
  | .doubleNegationIn term => "invalid double negation in " ++ Quoted.ofString term
  | .badTerm term => "invalid syntax at " ++ Quoted.ofString term

def isTagLetter (c : Char) : Bool := isAlphanumeric c || c == '_' || c == '.'

def tokens (offset : Nat) : List Char → Except SyntaxError (List Token)
  | [] => .ok []
  | c :: rest =>
    if isBlank c then tokens (offset + c.utf8Size) rest
    else if c = '(' then (tokens (offset + 1) rest).map (⟨.opening, offset⟩ :: ·)
    else if c = ')' then (tokens (offset + 1) rest).map (⟨.closing, offset⟩ :: ·)
    else if c = '!' then (tokens (offset + 1) rest).map (⟨.bang, offset⟩ :: ·)
    else if c = '&' ∨ c = '|' then
      match rest with
      | [] => .error (.halfOperator offset c)
      | d :: rest =>
        if d = c then
          (tokens (offset + 2) rest).map (⟨if c = '&' then .andAnd else .orOr, offset⟩ :: ·)
        else .error (.halfOperator offset c)
    else if isTagLetter c then
      let name := c :: rest.takeWhile isTagLetter
      (tokens (offset + Utf8.size name) (rest.dropWhile isTagLetter)).map
        (⟨.tag (String.ofList name), offset⟩ :: ·)
    else .error (.unexpectedChar offset c)
termination_by s => s.length
decreasing_by
  all_goals simp only [List.length_cons]
  all_goals first
    | omega
    | exact Nat.lt_succ_of_le (List.dropWhile_suffix isTagLetter).length_le

end PackageIndex.Constraint
