/-
  PackageIndex.Cgo.Flags — what `#cgo` lines ask of the tools that build C.

  A line is `#cgo`, conditions of which one has to hold, a verb, a colon and arguments.
  Flags add up line by line: `ofLines` gives those of the lines before the first faulty
  one, and its fault.
-/

import PackageIndex.Cgo.Argument
import PackageIndex.Cgo.Words
import PackageIndex.Context.Basic

namespace PackageIndex.Cgo

structure Flags where
  cflags : List String := []
  cppflags : List String := []
  cxxflags : List String := []
  fflags : List String := []
  ldflags : List String := []
  pkgConfig : List String := []
  deriving DecidableEq, Repr, Inhabited

instance : Append Flags where
  append f g :=
    { cflags := f.cflags ++ g.cflags
      cppflags := f.cppflags ++ g.cppflags
      cxxflags := f.cxxflags ++ g.cxxflags
      fflags := f.fflags ++ g.fflags
      ldflags := f.ldflags ++ g.ldflags
      pkgConfig := f.pkgConfig ++ g.pkgConfig }

namespace Flags

@[simp] theorem append_empty (f : Flags) : f ++ ({} : Flags) = f := by
  show Flags.mk _ _ _ _ _ _ = f
  simp

theorem append_assoc (f g k : Flags) : f ++ g ++ k = f ++ (g ++ k) := by
  show Flags.mk (_ ++ _ ++ _) (_ ++ _ ++ _) (_ ++ _ ++ _) (_ ++ _ ++ _) (_ ++ _ ++ _) (_ ++ _ ++ _) = _
  simp only [List.append_assoc]
  rfl

@[simp] theorem empty_append (f : Flags) : ({} : Flags) ++ f = f := by
  show Flags.mk _ _ _ _ _ _ = f
  simp

end Flags

inductive LineError where
  | line (text : List Char)
  | verb (text : List Char)
  | argument (text : List Char)
  deriving DecidableEq, Repr

def LineError.message (filename : String) : LineError → String
  | .line text => filename ++ ": invalid #cgo line: " ++ String.ofList text
  | .verb text => filename ++ ": invalid #cgo verb: " ++ String.ofList text
  | .argument text => filename ++ ": malformed #cgo argument: " ++ String.ofList text

namespace Flags

inductive Verb where
  | cflags
  | cppflags
  | cxxflags
  | fflags
  | ldflags
  | pkgConfig
  deriving DecidableEq, Repr

def Verb.ofName? : List Char → Option Verb := fun name =>
  [("CFLAGS".toList, Verb.cflags), ("CPPFLAGS".toList, .cppflags), ("CXXFLAGS".toList, .cxxflags),
   ("FFLAGS".toList, .fflags), ("LDFLAGS".toList, .ldflags), ("pkg-config".toList, .pkgConfig)].lookup name

/-- The arguments as the verb takes them. Names of packages are no paths. -/
def Verb.strings (dir : String) (verb : Verb) (args : List (List Char)) : List String :=
  (if verb = .pkgConfig then args else absolutePaths dir false args).map String.ofList

def extend (f : Flags) (verb : Verb) (args : List String) : Flags :=
  match verb with
  | .cflags => { f with cflags := f.cflags ++ args }
  | .cppflags => { f with cppflags := f.cppflags ++ args }
  | .cxxflags => { f with cxxflags := f.cxxflags ++ args }
  | .fflags => { f with fflags := f.fflags ++ args }
  | .ldflags => { f with ldflags := f.ldflags ++ args }
  | .pkgConfig => { f with pkgConfig := f.pkgConfig ++ args }

def Verb.flags (dir : String) (verb : Verb) (args : List (List Char)) : Flags := extend {} verb (verb.strings dir args)

/-- What follows `#cgo` on a line that it begins. -/
def directive? (line : List Char) : Option (List Char) := do
  let rest ← "#cgo".toList.isPrefixOf? (trim isBlank line)
  if rest.head? = some ' ' ∨ rest.head? = some '\t' then trim isBlank rest else none

def expandAll (dir : String) : List (List Char) → Except LineError (List (List Char))
  | [] => .ok []
  | arg :: args => do
    let (expanded, ok) := expand dir.toList arg
    if ok then return expanded :: (← expandAll dir args) else .error (.argument expanded)

/-- What a line asks for: a verb with its arguments, or nothing. Where the conditions do not hold, nothing more of the
line is read. -/
def request (ctx : BuildContext) (dir : String) (line : List Char) : Except LineError (Option (Verb × List (List Char))) :=
  match directive? line with
  | none => .ok none
  | some text => do
    let some (head, args) := cutAt? [':'] text | .error (.line line)
    let some verb := (words head).getLast? | .error (.line line)
    let conditions := (words head).dropLast
    if conditions ≠ [] ∧ ¬ conditions.any (fun c => ctx.satisfiesText (String.ofList c)) then return none
    let some args := shellWords? args | .error (.line line)
    let args ← expandAll dir args
    let some verb := Verb.ofName? verb | .error (.verb line)
    return some (verb, args)

def ofLine (ctx : BuildContext) (dir : String) (line : List Char) : Except LineError Flags :=
  (request ctx dir line).map fun
    | none => {}
    | some (verb, args) => verb.flags dir args

def ofLines (ctx : BuildContext) (dir : String) : List (List Char) → Flags × Option LineError
  | [] => ({}, none)
  | line :: lines =>
    match ofLine ctx dir line with
    | .error e => ({}, some e)
    | .ok flags =>
      let (more, fault) := ofLines ctx dir lines
      (flags ++ more, fault)

def ofPreamble (ctx : BuildContext) (dir : String) (preamble : String) : Flags × Option LineError :=
  ofLines ctx dir (preamble.toList.splitOn '\n')

end Flags

end PackageIndex.Cgo
