/-
  PackageIndex.Json.Parser — reading JSON text.

  The text is one value with white space around it. Nothing is said about what a string
  means, only that its escapes have the right form.
-/

import PackageIndex.Json.Basic

namespace PackageIndex.Json

def isSpace (c : Char) : Bool := c == ' ' || c == '\t' || c == '\n' || c == '\r'

def skipSpace (s : List Char) : List Char := s.dropWhile isSpace

abbrev Reader (α : Type) := List Char → Option (α × List Char)

/-! ## Strings and numbers -/

/-- The spelling of a string up to its closing quote; the opening one is gone. -/
def stringBody : Reader (List Char)
  | '"' :: s => some ([], s)
  | '\\' :: 'u' :: a :: b :: c :: d :: s =>
    if [a, b, c, d].all (fun x => (digit? 16 x).isSome) then
      (stringBody s).map fun (body, rest) => ('\\' :: 'u' :: a :: b :: c :: d :: body, rest)
    else none
  | '\\' :: e :: s =>
    if (escapes.lookup e).isSome then
      (stringBody s).map fun (body, rest) => ('\\' :: e :: body, rest)
    else none
  | c :: s =>
    if c.toNat < 0x20 ∨ c = '\\' then none else (stringBody s).map fun (body, rest) => (c :: body, rest)
  | [] => none

def digits : Reader (List Char) := fun s =>
  match s.span Char.isDigit with
  | ([], _) => none
  | found => some found

def integer : Reader (List Char)
  | '0' :: s => some (['0'], s)
  | s => digits s

def fraction : Reader (List Char)
  | '.' :: s => (digits s).map fun (ds, rest) => ('.' :: ds, rest)
  | s => some ([], s)

def exponent : Reader (List Char)
  | c :: s =>
    if c = 'e' ∨ c = 'E' then
      let (sign, s) := match s with
        | '+' :: s => (['+'], s)
        | '-' :: s => (['-'], s)
        | s => ([], s)
      (digits s).map fun (ds, rest) => (c :: sign ++ ds, rest)
    else some ([], c :: s)
  | [] => some ([], [])

def numeral : Reader (List Char) := fun s => do
  let (sign, s) := match s with
    | '-' :: s => (['-'], s)
    | s => ([], s)
  let (whole, s) ← integer s
  let (part, s) ← fraction s
  let (power, s) ← exponent s
  return (sign ++ whole ++ part ++ power, s)

/-! ## Values -/

mutual

/-- A value, given a bound on the number of steps that reading it takes. -/
def value : Nat → Reader Json
  | 0, _ => none
  | n + 1, s =>
    match skipSpace s with
    | '\x7b' :: s =>
      match skipSpace s with
      | '\x7d' :: s => some (.object [], s)
      | s => (members n s).map fun (ms, rest) => (.object ms, rest)
    | '[' :: s =>
      match skipSpace s with
      | ']' :: s => some (.array [], s)
      | s => (elements n s).map fun (vs, rest) => (.array vs, rest)
    | '"' :: s => (stringBody s).map fun (body, rest) => (.string body, rest)
    | 'n' :: 'u' :: 'l' :: 'l' :: s => some (.null, s)
    | 't' :: 'r' :: 'u' :: 'e' :: s => some (.bool true, s)
    | 'f' :: 'a' :: 'l' :: 's' :: 'e' :: s => some (.bool false, s)
    | s => (numeral s).map fun (ds, rest) => (.number ds, rest)

/-- The elements of an array that has some, with the bracket that closes it. -/
def elements : Nat → Reader (List Json)
  | 0, _ => none
  | n + 1, s => do
    let (v, s) ← value n s
    match skipSpace s with
    | ',' :: s =>
      let (vs, s) ← elements n s
      return (v :: vs, s)
    | ']' :: s => return ([v], s)
    | _ => none

def members : Nat → Reader (List (List Char × Json))
  | 0, _ => none
  | n + 1, s =>
    match skipSpace s with
    | '"' :: s => do
      let (key, s) ← stringBody s
      let ':' :: s := skipSpace s | none
      let (v, s) ← value n s
      match skipSpace s with
      | ',' :: s =>
        let (ms, s) ← members n s
        return ((key, v) :: ms, s)
      | '\x7d' :: s => return ([(key, v)], s)
      | _ => none
    | _ => none

end

/-- Two steps for each character are more than any value takes. -/
def parse? (s : List Char) : Option Json :=
  match value (2 * s.length + 2) s with
  | some (v, rest) => if skipSpace rest = [] then some v else none
  | none => none

end PackageIndex.Json
