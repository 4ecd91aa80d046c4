/-
  PackageIndex.Source.Comment — the text of a group of comments.

  Markers go, with one blank after `//`, and so do comments that are directives to tools.
  Lines lose the white space at their end; of several blank lines one stays, at the ends
  none. Each line that stays is ended by a line feed.
-/

import PackageIndex.Text.Blank
import PackageIndex.Text.Cut

namespace PackageIndex.Source

def isLowerOrDigit (c : Char) : Bool := c.isLower || c.isDigit

/-- A directive: `line`, `extern` or `export` and a blank, or letters and a colon that a letter follows. -/
def isToolDirective (body : List Char) : Bool :=
  ["line ".toList, "extern ".toList, "export ".toList].any (·.isPrefixOf body) ||
    match cutAt? [':'] body with
    | some (tool, c :: _) => !tool.isEmpty && tool.all isLowerOrDigit && c.isLower
    | _ => false

/-- What stands between the markers of a comment; a directive has no text. -/
def commentBody? (comment : List Char) : Option (List Char) :=
  match comment with
  | '/' :: '/' :: ' ' :: body => some body
  | '/' :: '/' :: body => if isToolDirective body then none else some body
  | '/' :: '*' :: rest =>
    some (if ['*', '/'].isSuffixOf rest then rest.take (rest.length - 2) else comment)
  | _ => some comment

/-- Leaves out each blank line that follows another, or begins the text when `blankBefore`. -/
def squeeze (blankBefore : Bool) : List (List Char) → List (List Char)
  | [] => []
  | [] :: ls => if blankBefore then squeeze true ls else [] :: squeeze true ls
  | l :: ls => l :: squeeze false ls

def groupText (comments : List (List Char)) : List Char :=
  let lines := (comments.filterMap commentBody?).flatMap fun body =>
    (body.splitOnP (· == '\n')).map (trimEnd isBlank)
  (trimEnd List.isEmpty (squeeze true lines)).flatMap (· ++ ['\n'])

end PackageIndex.Source
