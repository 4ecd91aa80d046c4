/-
  PackageIndex.Source.Leading — constraints among the leading lines of a file.

  The leading lines run to the first one that holds text outside comments. Among those
  that begin outside a block comment, at most one is a `//go:build` line, and one may
  mark a package that comes in binary form only. A `+build` line counts only among the
  `//` lines at the very top that a blank line follows, and only if there is no
  `//go:build` line.
-/

import PackageIndex.Constraint.Line
import PackageIndex.Text.Cut

namespace PackageIndex.Source

/-- The lines of a content. A line feed ends a line, so none follows the last one. -/
def byteLines (content : List UInt8) : List (List UInt8) :=
  let ls := content.splitOnP (· == 0x0A)
  if ls.getLast? = some [] then ls.dropLast else ls

def slashSlash : List UInt8 := [0x2F, 0x2F]

def slashStar : List UInt8 := [0x2F, 0x2A]

def starSlash : List UInt8 := [0x2A, 0x2F]

theorem length_trim_le {α : Type} (p : α → Bool) (l : List α) : (trim p l).length ≤ l.length := by
  have h1 := (List.dropWhile_suffix (p := p) (l := (l.dropWhile p).reverse)).length_le
  have h2 := (List.dropWhile_suffix (p := p) (l := l)).length_le
  simp only [trim, trimStart, trimEnd, List.length_reverse] at *
  omega

/-- Whether a line that begins inside a block comment, or outside, ends inside one; `none` if it
holds text outside comments. -/
def endsInside? (inside : Bool) (line : List UInt8) : Option Bool :=
  if line = [] then some inside
  else if inside then
    match _h : cutAt? starSlash line with
    | none => some true
    | some (_, rest) => endsInside? false (trim isBlankByte rest)
  else if slashSlash.isPrefixOf line then some false
  else
    match _h : slashStar.isPrefixOf? line with
    | none => none
    | some rest => endsInside? true (trim isBlankByte rest)
termination_by line.length
decreasing_by
  · have h1 := length_of_cutAt? _h
    have h2 := length_trim_le isBlankByte rest
    simp only [starSlash, List.length_cons, List.length_nil] at h1
    omega
  · have h1 := append_of_isPrefixOf? _h
    have h2 := length_trim_le isBlankByte rest
    rw [← h1]
    simp only [slashStar, List.length_append, List.length_cons, List.length_nil]
    omega

structure Leading where
  goBuild : Option (List Char) := none
  binaryOnly : Bool := false
  plusBuild : List (List Char) := []
  deriving DecidableEq, Repr

structure LeadingLines where
  inside : Bool := false
  /-- A line that does not begin with `//` has been read. -/
  mixed : Bool := false
  goBuild : Option (List Char) := none
  binaryOnly : Bool := false
  /-- The lines since the last blank line. -/
  pending : List (List UInt8) := []
  /-- The lines before the last blank line at the top. -/
  block : List (List UInt8) := []

namespace LeadingLines

/-- Takes note of a line that begins outside a block comment; `none` for a second `//go:build` line. -/
def note? (st : LeadingLines) (line : List UInt8) : Option LeadingLines :=
  let text := Utf8.lossy line
  if Constraint.isGoBuildLine text then
    if st.goBuild.isSome then none else some { st with goBuild := some text }
  else if text = "//go:binary-only-package".toList then some { st with binaryOnly := true }
  else some st

def read? (st : LeadingLines) : List (List UInt8) → Option LeadingLines
  | [] => some st
  | line :: rest =>
    let line := trim isBlankByte line
    if line = [] ∧ ¬ st.mixed then
      read? { st with block := st.block ++ st.pending, pending := [] } rest
    else do
      let st := { st with
        mixed := st.mixed || !slashSlash.isPrefixOf line
        pending := st.pending ++ [line] }
      let st ← if st.inside then some st else st.note? line
      match endsInside? st.inside line with
      | some inside => read? { st with inside } rest
      | none => some st

end LeadingLines

def leading? (content : List UInt8) : Option Leading := do
  let st ← LeadingLines.read? {} (byteLines content)
  return {
    goBuild := st.goBuild
    binaryOnly := st.binaryOnly
    plusBuild :=
      if st.goBuild.isSome then []
      else (st.block.map Utf8.lossy).filter Constraint.isPlusBuildLine }

end PackageIndex.Source
