/-
  PackageIndex.Source.Clause — the package clause and the imports after it.

  A source begins with `package` and a name. Import declarations follow, each of one
  spec or of specs in parentheses; the first token that begins none ends the reading. A
  spec that stands alone in its declaration takes the declaration's comment if it has
  none of its own. What was read before an error is kept, but for an import of a path
  that is no import path, which takes the other imports with it.
-/

import PackageIndex.Record.Basic
import PackageIndex.Source.Literal
import PackageIndex.Source.Synopsis
import PackageIndex.Source.Token

namespace PackageIndex.Source

/-! ## Errors -/

inductive Expected where
  | packageKeyword
  | packageName
  | importPath
  deriving DecidableEq, Repr

inductive ClauseError where
  | lexical (e : LexicalError)
  | expected (what : Expected) (found : Token)
  | badLiteral (t : Token)
  | badPath (t : Token) (path : List Char)
  deriving DecidableEq, Repr

def Unended.message : Unended → String
  | .comment => "comment not terminated"
  | .string => "string literal not terminated"
  | .rawString => "raw string literal not terminated"

def Expected.message : Expected → String
  | .packageKeyword => "expected 'package', found "
  | .packageName => "expected package name, found "
  | .importPath => "expected import path, found "

def Token.shown (t : Token) : String :=
  if t.kind = .eof then "EOF" else "'" ++ String.ofList t.text ++ "'"

/-- The message about a file: its name stands in front, but a lexical error that happens to begin
with the name is left as it is. -/
def ClauseError.message (filename : String) : ClauseError → String
  | .lexical e =>
    let message := e.place.text ++ ": " ++ e.what.message
    if filename.toList.isPrefixOf message.toList then message else filename ++ ":" ++ message
  | .expected what found => filename ++ ":" ++ found.place.text ++ ": " ++ what.message ++ found.shown
  | .badLiteral t =>
    filename ++ ":" ++ t.place.text ++ ": invalid quoted import path " ++ String.ofList t.text
  | .badPath t path => filename ++ ":" ++ t.place.text ++ ": invalid import path: " ++ String.ofList path

/-! ## Import specs -/

/-- Characters that no import path holds, beside controls and white space. -/
def illegalInPath : List Char := "!\"#$%&'()*,:;<=>?[\\]^\x7b|\x7d`\ufffd".toList

def isImportPath (path : List Char) : Bool :=
  !path.isEmpty && path.all fun c => !isControl c && !isBlank c && !illegalInPath.contains c

def Token.position (filename : String) (t : Token) : Position :=
  { filename
    offset := t.place.offset.toUInt32
    line := t.place.line.toUInt32
    column := t.place.column.toUInt32 }

namespace Tokens

/-- The next token and what follows it; at the end of the text there always is one more end. -/
def next : Tokens → Except ClauseError (Token × Tokens)
  | .token t rest => .ok (t, rest)
  | .eof p => .ok (⟨.eof, [], p, ""⟩, .eof p)
  | .broken e => .error (.lexical e)

def dropSemicolon : Tokens → Tokens
  | .token t rest => if t.text = [';'] then rest else .token t rest
  | ts => ts

theorem length_of_next {ts rest : Tokens} {t : Token} (h : ts.next = .ok (t, rest)) :
    rest.length ≤ ts.length ∧ (t.kind ≠ .eof → rest.length < ts.length) := by
  cases ts with
  | token u r => cases h; exact ⟨Nat.le_succ _, fun _ => Nat.lt_succ_self _⟩
  | eof e => cases h; exact ⟨Nat.le_refl _, fun h => absurd rfl h⟩
  | broken e => cases h

theorem length_dropSemicolon (ts : Tokens) : ts.dropSemicolon.length ≤ ts.length := by
  cases ts with
  | token t rest =>
    simp only [dropSemicolon]
    split
    · exact Nat.le_succ _
    · exact Nat.le_refl _
  | eof p => exact Nat.le_refl _
  | broken e => exact Nat.le_refl _

end Tokens

/-- The literal of a spec and what follows it: the token `t`, or the next one if `t` is a name or
a point. -/
def specLiteral (t : Token) (rest : Tokens) : Except ClauseError (Token × Tokens) :=
  if t.kind = .identifier ∨ t.text = ['.'] then rest.next else .ok (t, rest)

def pathOf (t : Token) : Except ClauseError String :=
  if t.kind ≠ .string then .error (.expected .importPath t)
  else match literalText? t.text with
    | none => .error (.badLiteral t)
    | some path => if isImportPath path then .ok (String.ofList path) else .error (.badPath t path)

def importSpec (filename : String) (ts : Tokens) : Except ClauseError (Import × Tokens) := do
  let (start, rest) ← ts.next
  let (literal, rest) ← specLiteral start rest
  let path ← pathOf literal
  return ({ path, doc := start.doc, position := start.position filename }, rest)

theorem length_of_importSpec {filename : String} {ts rest : Tokens} {i : Import}
    (h : importSpec filename ts = .ok (i, rest)) : rest.length < ts.length := by
  simp only [importSpec, bind, Except.bind, pure, Except.pure] at h
  split at h
  · cases h
  · rename_i p hp
    obtain ⟨start, r⟩ := p
    obtain ⟨h1, h2⟩ := Tokens.length_of_next hp
    split at h
    · cases h
    · rename_i q hq
      obtain ⟨t, r'⟩ := q
      split at h
      · cases h
      · rename_i path hpath
        cases h
        have ht : t.kind = .string := by
          unfold pathOf at hpath
          split at hpath
          · cases hpath
          · rename_i hk
            exact Decidable.not_not.mp hk
        simp only [specLiteral] at hq
        split at hq
        · exact Nat.lt_of_lt_of_le ((Tokens.length_of_next hq).2 (by rw [ht]; decide)) h1
        · cases hq
          exact h2 (by rw [ht]; decide)

/-! ## Declarations -/

def importBlock (filename : String) (ts : Tokens) : List Import × Except ClauseError Tokens :=
  match ts.next with
  | .error e => ([], .error e)
  | .ok (t, rest) =>
    if t.text = [')'] then ([], .ok rest)
    else
      match _h : importSpec filename ts with
      | .error e => ([], .error e)
      | .ok (i, rest) =>
        let (is, after) := importBlock filename rest.dropSemicolon
        (i :: is, after)
termination_by ts.length
decreasing_by exact Nat.lt_of_le_of_lt (Tokens.length_dropSemicolon rest) (length_of_importSpec _h)

theorem length_of_importBlock {filename : String} {ts rest : Tokens}
    (h : (importBlock filename ts).2 = .ok rest) : rest.length ≤ ts.length := by
  fun_induction importBlock filename ts with
  | case1 => cases h
  | case2 ts t r hn _ =>
    cases h
    exact (Tokens.length_of_next hn).1
  | case3 => cases h
  | case4 ts t r hn _ i rest' hs is after hb ih =>
    have h1 := length_of_importSpec hs
    have h2 := Tokens.length_dropSemicolon rest'
    have h3 := ih (by rw [hb]; exact h)
    omega

/-- What follows `import` and an opening parenthesis or not: the imports of one declaration. -/
def importDecl (filename : String) (ts : Tokens) : List Import × Except ClauseError Tokens :=
  match ts.next with
  | .error e => ([], .error e)
  | .ok (t, rest) =>
    if t.text = ['('] then importBlock filename rest
    else
      match importSpec filename ts with
      | .error e => ([], .error e)
      | .ok (i, rest) => ([i], .ok rest)

theorem length_of_importDecl {filename : String} {ts rest : Tokens}
    (h : (importDecl filename ts).2 = .ok rest) : rest.length ≤ ts.length := by
  simp only [importDecl] at h
  split at h
  · cases h
  · rename_i t r hn
    split at h
    · exact Nat.le_trans (length_of_importBlock h) (Tokens.length_of_next hn).1
    · split at h
      · cases h
      · rename_i hs
        cases h
        exact Nat.le_of_lt (length_of_importSpec hs)

/-- A lone import without a comment takes that of its declaration. -/
def inheritDoc (doc : String) : List Import → List Import
  | [i] => [if i.doc = "" then { i with doc } else i]
  | is => is

def importDecls (filename : String) (ts : Tokens) : List Import × Option ClauseError :=
  match _hn : ts.next with
  | .error e => ([], some e)
  | .ok (t, rest) =>
    if _ht : t.kind = .identifier ∧ t.text = "import".toList then
      match _hd : importDecl filename rest with
      | (is, .error e) => (is, some e)
      | (is, .ok rest) =>
        let (more, e) := importDecls filename rest.dropSemicolon
        (inheritDoc t.doc is ++ more, e)
    else ([], none)
termination_by ts.length
decreasing_by
  have h1 := (Tokens.length_of_next _hn).2 (by rw [_ht.1]; decide)
  have h2 := length_of_importDecl (congrArg Prod.snd _hd)
  have h3 := Tokens.length_dropSemicolon rest
  omega

/-! ## The package clause -/

/-- A comment that states the package's import path, right after its name: `import` and a path in
quotes, of which the quotes are kept. -/
def importComment? (afterName : List Char) : Option (List Char) := do
  let line := trimStart isBlank (afterName.takeWhile (· ≠ '\n'))
  let line := trimStart isBlank (if line.head? = some ';' then line.tail else line)
  let body ← match line with
    | '/' :: '/' :: body => some body
    | '/' :: '*' :: rest => (cutAt? ['*', '/'] rest).map (·.1)
    | _ => none
  let body ← "import".toList.isPrefixOf? (trimStart isBlank body)
  if body.head? ≠ some ' ' ∧ body.head? ≠ some '\t' then none
  else
    match trim isBlank body with
    | [] => none
    | quote :: rest =>
      if quote ≠ '"' ∧ quote ≠ '`' then none
      else (cutAt? [quote] rest).map fun (path, _) => quote :: path ++ [quote]

structure Clause where
  packageName : String := ""
  synopsis : String := ""
  importComment : String := ""
  importCommentLine : Nat := 0
  imports : List Import := []
  error : Option ClauseError := none
  deriving DecidableEq, Repr

/-- The clause after `package`, whose comment gives the synopsis. -/
def clauseAfterPackage (filename : String) (synopsis : String) (afterName : List Char) (ts : Tokens) :
    Clause :=
  match ts.next with
  | .error e => { synopsis, error := some e }
  | .ok (name, rest) =>
    if name.kind ≠ .identifier then { synopsis, error := some (.expected .packageName name) }
    else
      let comment := importComment? afterName
      let (imports, error) := importDecls filename rest.dropSemicolon
      { packageName := String.ofList name.text
        synopsis
        importComment := String.ofList (comment.getD [])
        importCommentLine := if comment.isSome then name.place.line else 0
        imports := match error with
          | some (.badPath ..) => []
          | _ => imports
        error }

def clause (filename : String) (source : List Char) : Clause :=
  let ls := lexemes source
  match (Tokens.ofLexemes ls).next with
  | .error e => { error := some e }
  | .ok (t, rest) =>
    if t.kind = .identifier ∧ t.text = "package".toList then
      clauseAfterPackage filename (String.ofList (synopsis t.doc.toList)) (textAfter 2 ls) rest
    else { error := some (.expected .packageKeyword t) }

end PackageIndex.Source
