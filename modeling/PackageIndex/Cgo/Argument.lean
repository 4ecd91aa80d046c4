/-
  PackageIndex.Cgo.Argument — one argument for the tools that build C.

  The directory is put in where an argument asks for it, and only arguments of safe
  characters are let through. Include and library paths are made absolute.
-/

import PackageIndex.Path
import PackageIndex.Text.Cut

namespace PackageIndex.Cgo

/-! ## Safe characters -/

def safePunctuation : List Char := "+-.,/=_:$@%! ~^".toList

def isSafe (c : Char) : Bool := 0x80 ≤ c.toNat || c.isAlphanum || safePunctuation.contains c

def isSafeName (s : List Char) : Bool := s ≠ [] && s.all isSafe

/-! ## The directory in an argument -/

/-- An argument with the directory in its place, and whether it may be used. With the
directory in it, neither the directory nor the rest has to say anything, but both together do. -/
def expand (dir arg : List Char) : List Char × Bool :=
  let dir := dir.map fun c => if c = '\\' then '/' else c
  let chunks := cutAll '$' "\x7bSRCDIR\x7d".toList arg
  if chunks.length < 2 then (arg, isSafeName arg)
  else
    let expanded := dir.intercalate chunks
    (expanded, (dir :: chunks).all (fun s => s = [] || isSafeName s) && expanded ≠ [])

/-! ## Include and library paths -/

inductive PathOption where
  /-- The flag alone: the next argument is its path. -/
  | flag
  /-- The flag with its path. -/
  | joined (flag path : List Char)
  | none
  deriving DecidableEq, Repr

def PathOption.ofArg : List Char → PathOption
  | '-' :: c :: path =>
    if c = 'I' ∨ c = 'L' then (if path = [] then .flag else .joined ['-', c] path) else .none
  | _ => .none

def absolute (dir : String) (path : List Char) : List Char := (Path.join dir (String.ofList path)).toList

def absolutePaths (dir : String) : (afterFlag : Bool) → List (List Char) → List (List Char)
  | _, [] => []
  | true, arg :: args => absolute dir arg :: absolutePaths dir false args
  | false, arg :: args =>
    match PathOption.ofArg arg with
    | .flag => arg :: absolutePaths dir true args
    | .joined flag path => (flag ++ absolute dir path) :: absolutePaths dir false args
    | .none => arg :: absolutePaths dir false args

end PackageIndex.Cgo
