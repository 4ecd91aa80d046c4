/-
  PackageIndex.Constraint.Parser — reading constraints.

  Of a `//go:build` expression:

    alternatives := all ('||' all)*      all := negation ('&&' negation)*
    negation     := '!' primary | primary    primary := tag | '(' alternatives ')'

  Each level reads operands of the next one; only a parenthesis leads back, so the depth
  of parentheses bounds the recursion. An operand that stands alone is itself the result.

  A `+build` line has no parentheses: blanks separate alternatives, commas the terms of
  one, and a term is a tag or its negation.
-/

import PackageIndex.Constraint.Basic
import PackageIndex.Constraint.Token

namespace PackageIndex.Constraint

/-! ## Expressions -/

abbrev Reader (α : Type) := List Token → Except SyntaxError (α × List Token)

/-- An operand, and one more after each `op`. The count bounds the operands: each takes a token. -/
def operands (op : Kind) (operand : Reader Constraint) : Nat → Reader (List Constraint)
  | 0, _ => .error .unexpectedEnd
  | n + 1, ts => do
    let (e, rest) ← operand ts
    match rest with
    | [] => return ([e], [])
    | t :: more =>
      if t.kind = op then
        let (es, rest) ← operands op operand n more
        return (e :: es, rest)
      else return ([e], t :: more)

/-- A lone operand is itself; several are joined. -/
def joined (join : List Constraint → Constraint) : List Constraint → Constraint
  | [e] => e
  | es => join es

def level (op : Kind) (join : List Constraint → Constraint) (operand : Reader Constraint) :
    Reader Constraint := fun ts => do
  let (es, rest) ← operands op operand ts.length ts
  return (joined join es, rest)

def negation (primary : Reader Constraint) : Reader Constraint
  | ⟨.bang, _⟩ :: ⟨.bang, _⟩ :: _ => .error .doubleNegation
  | ⟨.bang, _⟩ :: rest => do
    let (e, rest) ← primary rest
    return (.not e, rest)
  | ts => primary ts

def alternatives (primary : Reader Constraint) : Reader Constraint :=
  level .orOr .or (level .andAnd .and (negation primary))

/-- A tag, or an expression in parentheses that nest at most `depth` deep. -/
def primary : (depth : Nat) → Reader Constraint
  | _, [] => .error .unexpectedEnd
  | _, ⟨.tag name, _⟩ :: rest => .ok (.tag name, rest)
  | depth + 1, ⟨.opening, offset⟩ :: rest => do
    let (e, rest) ← alternatives (primary depth) rest
    match rest with
    | ⟨.closing, _⟩ :: rest => return (e, rest)
    | _ => .error (.unclosed offset)
  | _, t :: _ => .error (.unexpectedToken t)

/-- Reads all tokens: there are fewer parentheses than tokens and one. -/
def ofTokens (ts : List Token) : Except SyntaxError Constraint := do
  let (e, rest) ← alternatives (primary ts.length) ts
  match rest with
  | [] => return e
  | t :: _ => .error (.unexpectedToken t)

def ofGoBuild (s : List Char) : Except SyntaxError Constraint := do
  ofTokens (← tokens 0 s)

/-! ## Terms -/

def ofTerm (term : List Char) : Except SyntaxError Constraint :=
  let (negated, name) := match term with
    | '!' :: rest => (true, rest)
    | _ => (false, term)
  if name.head? = some '!' then .error (.doubleNegationIn (String.ofList term))
  else if name = [] ∨ ¬ name.all isTagLetter then .error (.badTerm (String.ofList term))
  else
    let tag := .tag (String.ofList name)
    .ok (if negated then .not tag else tag)

def ofClause (clause : List Char) : Except SyntaxError Constraint := do
  return joined .and (← (clause.splitOnP (· == ',')).mapM ofTerm)

/-- The arguments of a `+build` line. Without any, the line never holds. -/
def ofPlusBuild (s : List Char) : Except SyntaxError Constraint := do
  match ← (words s).mapM ofClause with
  | [] => return .tag "ignore"
  | es => return joined .or es

end PackageIndex.Constraint
