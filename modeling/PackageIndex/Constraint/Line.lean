/-
  PackageIndex.Constraint.Line — constraint lines among comment lines.

  A line is a `//go:build` line if these letters begin it, and a `+build` line if
  `+build` is the first thing in a `//` comment; in both, white space or the end of the
  line comes next. What follows it, trimmed, is the line's expression.
-/

import PackageIndex.Constraint.Parser

namespace PackageIndex.Constraint

/-- The line without the line feed that ends it; `none` if it is more than one line. -/
def singleLine? (line : List Char) : Option (List Char) :=
  let line := match line.reverse with
    | '\n' :: rest => rest.reverse
    | _ => line
  if line.contains '\n' then none else some line

/-- What follows a keyword, trimmed; `none` if no white space parts the two. -/
def argument? (rest : List Char) : Option (List Char) :=
  let text := trim isBlank rest
  if text = rest ∧ rest ≠ [] then none else some text

def goBuildText? (line : List Char) : Option (List Char) := do
  let line ← singleLine? line
  let _ ← "//go:build".toList.isPrefixOf? line
  argument? ((trim isBlank line).drop "//go:build".length)

def plusBuildText? (line : List Char) : Option (List Char) := do
  let line ← singleLine? line
  let rest ← "//".toList.isPrefixOf? line
  let rest ← "+build".toList.isPrefixOf? (trim isBlank rest)
  argument? rest

def isGoBuildLine (line : List Char) : Bool := (goBuildText? line).isSome

def isPlusBuildLine (line : List Char) : Bool := (plusBuildText? line).isSome

def ofLine (line : List Char) : Except SyntaxError Constraint :=
  match goBuildText? line, plusBuildText? line with
  | some s, _ => ofGoBuild s
  | none, some s => ofPlusBuild s
  | none, none => .error .notConstraint

end PackageIndex.Constraint
