/-
  PackageIndex.Proofs.Source.Written — a header that is written by its parts is read as these.

  A package clause, with its import path in a comment or not, and declarations of imports
  with lines of comment above them. Each part is read with whatever follows it; what goes
  from one to the next is that no comment is held over, and that the last token stands on
  the line that has been reached.

  - `importSpec_written`: an import, under the comments that are held for it.
  - `importBlock_written`, `importDecls_written`: the imports of a block, and of all declarations.
  - `importComment?_written`: the comment after the package's name.
  - `scan_written`: the header of a file.
-/

import PackageIndex.Proofs.Source.Escapes
import PackageIndex.Proofs.Source.Leading
import PackageIndex.Proofs.Text.Parts
import PackageIndex.Source.Header

namespace PackageIndex.Source

/-! ## Headers by their parts -/

/-- A line of comment, less its marker and the blank after it. -/
def isCommentLine (l : List Char) : Bool := !l.contains '\n' && l.getLast?.any (!isBlank ·)

structure WrittenImport where
  /-- What each of its lines begins with. -/
  blanks : List Char := []
  comment : List (List Char) := []
  /-- The name that the import is given, or a point. -/
  label : Option (List Char) := none
  path : List Char
  areBlanks : ∀ c ∈ blanks, c = ' ' ∨ c = '\t'
  areCommentLines : ∀ l ∈ comment, isCommentLine l = true
  isLabel : ∀ l ∈ label, isIdentifier l = true ∨ l = ['.']
  isImportPath : isImportPath path = true

namespace WrittenImport

def labelText (i : WrittenImport) : List Char :=
  match i.label with
  | none => []
  | some l => l ++ [' ']

def text (i : WrittenImport) : List Char := i.labelText ++ '"' :: i.path ++ ['"']

/-- The lines of its comment, and what stands in front of its last line. -/
def above (i : WrittenImport) : List Char := commentLines i.blanks i.comment ++ i.blanks

def declared (i : WrittenImport) : String × String :=
  (String.ofList i.path, String.ofList (i.comment.flatMap (· ++ ['\n'])))

end WrittenImport

inductive WrittenDecl where
  | single (i : WrittenImport)
  | block (is : List WrittenImport)

namespace WrittenDecl

def blockText (is : List WrittenImport) : List Char := is.flatMap (fun i => '\n' :: i.above ++ i.text) ++ ['\n', ')']

def text : WrittenDecl → List Char
  | single i => '\n' :: '\n' :: i.above ++ "import ".toList ++ i.text
  | block is => '\n' :: '\n' :: "import ".toList ++ '(' :: blockText is

def declared : WrittenDecl → List (String × String)
  | single i => [i.declared]
  | block is => is.map WrittenImport.declared

end WrittenDecl

structure WrittenComment where
  /-- Between `/*` and `*/`, not after `//`. -/
  inBlock : Bool
  path : List Char
  isImportPath : isImportPath path = true

namespace WrittenComment

def importText (c : WrittenComment) : List Char := ' ' :: "import".toList ++ ' ' :: '"' :: c.path ++ ['"']

def text (c : WrittenComment) : List Char :=
  if c.inBlock then ' ' :: '/' :: '*' :: c.importText ++ [' ', '*', '/'] else ' ' :: '/' :: '/' :: c.importText

def quoted (c : WrittenComment) : List Char := '"' :: c.path ++ ['"']

end WrittenComment

inductive WrittenEnd where
  | nothing
  | newline
  /-- A blank line and a declaration. -/
  | declaration (keyword : List Char) (rest : List Char) (h : keyword ∈ ["var".toList, "func".toList, "type".toList, "const".toList])

def WrittenEnd.text : WrittenEnd → List Char
  | nothing => []
  | newline => ['\n']
  | declaration keyword rest _ => '\n' :: '\n' :: keyword ++ ' ' :: rest

structure WrittenHeader where
  packageName : List Char
  comment : Option WrittenComment := none
  decls : List WrittenDecl := []
  rest : WrittenEnd := .nothing
  isPackageName : isIdentifier packageName = true

namespace WrittenHeader

def commentText (w : WrittenHeader) : List Char := (w.comment.map WrittenComment.text).getD []

def body (w : WrittenHeader) : List Char := w.decls.flatMap WrittenDecl.text ++ w.rest.text

def text (w : WrittenHeader) : List Char := "package".toList ++ ' ' :: (w.packageName ++ (w.commentText ++ w.body))

def declared (w : WrittenHeader) : List (String × String) := w.decls.flatMap WrittenDecl.declared

end WrittenHeader

/-! ## Comments -/

theorem squeeze_of_ne_nil {lines : List (List Char)} (h : ∀ l ∈ lines, l ≠ []) (blank : Bool) : squeeze blank lines = lines := by
  induction lines generalizing blank with
  | nil => rfl
  | cons l lines ih =>
    obtain ⟨hl, hlines⟩ := List.forall_mem_cons.mp h
    rw [squeeze, ih hlines]
    exact hl

/-- Lines of comment are their own text. -/
theorem groupText_lines {lines : List (List Char)} (h : ∀ l ∈ lines, isCommentLine l = true) :
    groupText (lines.map (['/', '/', ' '] ++ ·)) = lines.flatMap (· ++ ['\n']) := by
  have hfeed : ∀ l ∈ lines, '\n' ∉ l := by
    intro l hl
    simpa using (Bool.and_eq_true_iff.mp (h l hl)).1
  have hlast : ∀ l ∈ lines, ∃ c, l.getLast? = some c ∧ isBlank c = false := by
    intro l hl
    obtain ⟨c, hc, hblank⟩ := (Option.any_eq_true _ _).mp (Bool.and_eq_true_iff.mp (h l hl)).2
    exact ⟨c, hc, by simpa using hblank⟩
  have hne : ∀ l ∈ lines, l ≠ [] := by
    intro l hl hnil
    obtain ⟨c, hc, -⟩ := hlast l hl
    rw [hnil] at hc
    cases hc
  have hbodies : (lines.map (['/', '/', ' '] ++ ·)).filterMap commentBody? = lines := by
    rw [List.filterMap_map]
    exact List.filterMap_some
  have hlines : (lines.flatMap fun body => (body.splitOnP (· == '\n')).map (trimEnd isBlank)) = lines := by
    have hone : ∀ l ∈ lines, (l.splitOnP (· == '\n')).map (trimEnd isBlank) = [l] := by
      intro l hl
      obtain ⟨c, hc, hblank⟩ := hlast l hl
      have htrim : trimEnd isBlank l = l := trimEnd_of_getLast? fun a ha => by cases hc.symm.trans ha; exact hblank
      rw [← List.splitOn_eq_splitOnP, List.splitOn_eq_singleton (hfeed l hl), List.map_singleton, htrim]
    rw [List.flatMap_def, List.map_congr_left hone, ← List.flatMap_def, List.flatMap_singleton']
  have htrimmed : trimEnd List.isEmpty lines = lines := by
    refine trimEnd_of_getLast? fun l hl => ?_
    have := hne l (List.mem_of_getLast? hl)
    simpa using this
  simp only [groupText, hbodies, hlines, squeeze_of_ne_nil hne, htrimmed]

/-! ## Literals -/

theorem not_mem_of_isImportPath {path : List Char} {c : Char} (h : isImportPath path = true) (hc : isImportPath [c] = false) :
    c ∉ path := by
  intro hmem
  have hlegal := List.all_eq_true.mp (Bool.and_eq_true_iff.mp h).2 c hmem
  have hone : isImportPath [c] = true := by simpa [isImportPath] using hlegal
  rw [hone] at hc
  cases hc

theorem isPlainLiteral_of_isImportPath {path : List Char} (h : isImportPath path = true) : IsPlainLiteral path := by
  intro c hc
  have hne {d : Char} (hd : isImportPath [d] = false) : c ≠ d := fun he => not_mem_of_isImportPath h hd (he ▸ hc)
  exact ⟨hne (by decide), hne (by decide), hne (by decide)⟩

/-! ## Imports -/

variable {r : Reader} {comments : List (List Char)} (filename : String)

def pathAndDoc (i : Import) : String × String := (i.path, i.doc)

/-- The next token is none of the marks that are looked for where an import may begin. -/
structure Begins (ts : Tokens) (t : Token) (rest : Tokens) : Prop where
  eq : ts = .token t rest
  close : t.text ≠ [')']
  opening : t.text ≠ ['(']
  semicolon : t.text ≠ [';']

theorem importSpec_eq {ts rest after : Tokens} {start literal : Token} {path : String} (hstart : ts.next = .ok (start, rest))
    (hliteral : specLiteral start rest = .ok (literal, after)) (hpath : pathOf literal = .ok path) :
    importSpec filename ts = .ok ({ path, doc := start.doc, position := start.position filename }, after) := by
  simp only [importSpec, hstart, hliteral, hpath, bind, Except.bind, pure, Except.pure]

/-- The literal of an import, wherever it stands. -/
theorem tokens_literal (i : WrittenImport) (r : Reader) (s : List Char) : ∃ t r',
    r.tokens ('"' :: i.path ++ '"' :: s) = .token t (Reader.tokens r' s) ∧ t.kind = .string ∧ t.text = '"' :: i.path ++ ['"'] ∧
      t.doc = docAbove r.group r.place.line ∧ r'.Holds [] ∧ r'.tokenLine = r'.place.line := by
  have hvalue := literalText?_of_plain (isPlainLiteral_of_isImportPath i.isImportPath)
  have htokens := tokens_literal_of_some hvalue r s
  rw [List.cons_append, List.append_assoc, List.singleton_append] at htokens
  exact ⟨_, _, htokens, rfl, rfl, rfl, Reader.holds_past _,
    (Reader.line_after_of_not_mem (newline_not_mem_interpreted hvalue) _).symm⟩

theorem pathOf_literal (i : WrittenImport) {t : Token} (hkind : t.kind = .string) (htext : t.text = '"' :: i.path ++ ['"']) :
    pathOf t = .ok (String.ofList i.path) := by
  unfold pathOf
  rw [if_neg (by simp [hkind]), htext, List.cons_append, literalText?_of_plain (isPlainLiteral_of_isImportPath i.isImportPath)]
  simp only [i.isImportPath, if_true]

/-- The name in front of an import is a token of its own, of either kind, and so is the point. -/
theorem tokens_label {label : List Char} (h : isIdentifier label = true ∨ label = ['.']) (r : Reader) (s : List Char) : ∃ t p,
    r.tokens (label ++ ' ' :: s) = .token t (((r.past p).skip [' ']).tokens s) ∧ (t.kind = .identifier ∨ t.text = ['.']) ∧
      t.text = label ∧ t.doc = docAbove r.group r.place.line := by
  rcases h with hname | rfl
  · rw [Reader.tokens_identifier hname (stops_cons (by decide) _), Reader.tokens_blank]
    exact ⟨_, _, rfl, Or.inl rfl, rfl, rfl⟩
  · rw [List.singleton_append, Reader.tokens_mark (Or.inr (Or.inr rfl)), Reader.tokens_blank]
    exact ⟨_, _, rfl, Or.inr rfl, rfl, rfl⟩

theorem importSpec_written (i : WrittenImport) (h : r.Holds comments) (s : List Char) : ∃ t rest j r',
    Begins (r.tokens (i.text ++ s)) t rest ∧ importSpec filename (r.tokens (i.text ++ s)) = .ok (j, Reader.tokens r' s) ∧
      j.path = String.ofList i.path ∧ j.doc = String.ofList (groupText comments) ∧
      r'.Holds [] ∧ r'.tokenLine = r'.place.line := by
  have hdoc := Reader.docAbove_of_holds h
  cases hlabel : i.label with
  | none =>
    have htext : i.text ++ s = '"' :: i.path ++ '"' :: s := by simp [WrittenImport.text, WrittenImport.labelText, hlabel]
    obtain ⟨t, r', htokens, hkind, hspelt, htdoc, hholds, hline⟩ := tokens_literal i r s
    have hspec : specLiteral t (r'.tokens s) = .ok (t, r'.tokens s) := by
      unfold specLiteral
      rw [if_neg (by simp [hkind, hspelt])]
    rw [htext, htokens]
    refine ⟨t, _, _, r', ⟨rfl, ?_, ?_, ?_⟩, importSpec_eq filename rfl hspec (pathOf_literal i hkind hspelt), rfl, ?_, hholds, hline⟩
    · simp [hspelt]
    · simp [hspelt]
    · simp [hspelt]
    · rw [← hdoc, ← htdoc]
  | some label =>
    have htext : i.text ++ s = label ++ ' ' :: ('"' :: i.path ++ '"' :: s) := by
      simp [WrittenImport.text, WrittenImport.labelText, hlabel]
    obtain ⟨t, p, htokens, hlabelled, hspelt, htdoc⟩ := tokens_label (i.isLabel label hlabel) r ('"' :: i.path ++ '"' :: s)
    obtain ⟨literal, r', hliteral, hkind, hpath, -, hholds, hline⟩ := tokens_literal i ((r.past p).skip [' ']) s
    have hspec : specLiteral t (.token literal (r'.tokens s)) = .ok (literal, r'.tokens s) := by
      unfold specLiteral
      rw [if_pos hlabelled]
      rfl
    have hmark (c : Char) (hc : isNameStart c = false ∧ c ≠ '.') : t.text ≠ [c] := by
      rw [hspelt]
      rintro rfl
      rcases i.isLabel [c] hlabel with hname | hdot
      · simp [isIdentifier, hc.1] at hname
      · exact hc.2 (List.cons.inj hdot).1
    rw [htext, htokens, hliteral]
    refine ⟨t, _, _, r', ⟨rfl, hmark _ (by decide), hmark _ (by decide), hmark _ (by decide)⟩,
      importSpec_eq filename rfl hspec (pathOf_literal i hkind hpath), rfl, ?_, hholds, hline⟩
    rw [← hdoc, ← htdoc]

/-- What stands above an import is held for it. -/
theorem tokens_above (i : WrittenImport) (h : r.Holds []) (hline : r.tokenLine < r.place.line) :
    ∃ r' : Reader, (∀ s, r.tokens (i.above ++ s) = r'.tokens s) ∧ r'.Holds (i.comment.map (['/', '/', ' '] ++ ·)) := by
  have hfeed : ∀ l ∈ i.comment, '\n' ∉ l := by
    intro l hl
    simpa using (Bool.and_eq_true_iff.mp (i.areCommentLines l hl)).1
  obtain ⟨r', htokens, hholds, -⟩ := Reader.tokens_commentLines h hline i.areBlanks hfeed
  refine ⟨r'.skip i.blanks, fun s => ?_, ?_⟩
  · rw [WrittenImport.above, List.append_assoc, htokens, Reader.tokens_blanks i.areBlanks]
  · exact hholds.of_eq rfl (Reader.line_after_of_not_mem (Reader.newline_not_mem_blanks i.areBlanks) _)

theorem pathAndDoc_of_written {i : WrittenImport} {j : Import} (hpath : j.path = String.ofList i.path)
    (hdoc : j.doc = String.ofList (groupText (i.comment.map (['/', '/', ' '] ++ ·)))) : pathAndDoc j = i.declared := by
  rw [pathAndDoc, WrittenImport.declared, hpath, hdoc, groupText_lines i.areCommentLines]

theorem dropSemicolon_of_begins {ts rest : Tokens} {t : Token} (h : Begins ts t rest) : ts.dropSemicolon = ts := by
  rw [h.eq, Tokens.dropSemicolon, if_neg h.semicolon]

theorem importBlock_close {ts rest : Tokens} {t : Token} (hnext : ts.next = .ok (t, rest)) (ht : t.text = [')']) :
    importBlock filename ts = ([], .ok rest) := by
  rw [importBlock]
  simp only [hnext, if_pos ht]

theorem importBlock_spec {ts rest after : Tokens} {t : Token} {i : Import} (h : Begins ts t rest)
    (hspec : importSpec filename ts = .ok (i, after)) : importBlock filename ts =
      (i :: (importBlock filename after.dropSemicolon).1, (importBlock filename after.dropSemicolon).2) := by
  have hnext : ts.next = .ok (t, rest) := by rw [h.eq]; rfl
  rw [importBlock]
  simp only [hnext, if_neg h.close]
  split
  · rename_i hs
    cases hspec.symm.trans hs
  · rename_i hs
    cases hspec.symm.trans hs
    rfl

/-- The imports of a block, from behind its parenthesis or an import on. -/
theorem importBlock_written (is : List WrittenImport) (h : r.Holds []) (hline : r.tokenLine = r.place.line) (s : List Char) :
    ∃ js r', (r.tokens (WrittenDecl.blockText is ++ s)).dropSemicolon = r.tokens (WrittenDecl.blockText is ++ s) ∧
      importBlock filename (r.tokens (WrittenDecl.blockText is ++ s)) = (js, .ok (Reader.tokens r' s)) ∧
      js.map pathAndDoc = is.map WrittenImport.declared ∧ r'.Holds [] ∧ r'.tokenLine = r'.place.line := by
  induction is generalizing r with
  | nil =>
    have htext : WrittenDecl.blockText [] ++ s = '\n' :: ')' :: s := rfl
    have hat : (r.skip ['\n']).place.line = ((r.skip ['\n']).place.after [')']).line :=
      (Reader.line_after_of_not_mem (by decide) _).symm
    rw [htext, Reader.tokens_newline, Reader.tokens_mark (Or.inr (Or.inl rfl))]
    exact ⟨[], _, rfl, importBlock_close filename rfl rfl, rfl, Reader.holds_past _, hat⟩
  | cons i is ih =>
    have htext : WrittenDecl.blockText (i :: is) ++ s = '\n' :: (i.above ++ (i.text ++ (WrittenDecl.blockText is ++ s))) := by
      simp [WrittenDecl.blockText]
    obtain ⟨r₁, habove, hheld⟩ := tokens_above i (r := r.skip ['\n']) h (Reader.below_newline (Nat.le_of_eq hline))
    obtain ⟨t, rest, j, r₂, hbegins, hspec, hpath, hdoc, hholds, hat⟩ :=
      importSpec_written filename i hheld (WrittenDecl.blockText is ++ s)
    obtain ⟨js, r', hdrop, hblock, hjs, hend⟩ := ih hholds hat
    rw [htext, Reader.tokens_newline, habove]
    refine ⟨j :: js, r', dropSemicolon_of_begins hbegins, ?_, ?_, hend⟩
    · rw [importBlock_spec filename hbegins hspec, hdrop, hblock]
    · rw [List.map_cons, List.map_cons, hjs, pathAndDoc_of_written hpath hdoc]

/-! ## Declarations -/

theorem importDecl_block {ts rest : Tokens} {t : Token} (hnext : ts.next = .ok (t, rest)) (ht : t.text = ['(']) :
    importDecl filename ts = importBlock filename rest := by
  simp only [importDecl, hnext, if_pos ht]

theorem importDecl_single {ts rest after : Tokens} {t : Token} {i : Import} (h : Begins ts t rest)
    (hspec : importSpec filename ts = .ok (i, after)) : importDecl filename ts = ([i], .ok after) := by
  have hnext : ts.next = .ok (t, rest) := by rw [h.eq]; rfl
  simp only [importDecl, hnext, if_neg h.opening, hspec]

/-- The tokens begin with a declaration of these imports, which inherit its comment. -/
structure Declares (filename : String) (ts after : Tokens) (declared : List (String × String)) : Prop where
  exists_token : ∃ t rest is, ts = .token t rest ∧ t.kind = .identifier ∧ t.text = "import".toList ∧
    importDecl filename rest = (is, .ok after) ∧ (inheritDoc t.doc is).map pathAndDoc = declared

theorem tokens_import (h : r.Holds comments) (s : List Char) : ∃ t r', r.tokens ("import ".toList ++ s) = .token t (Reader.tokens r' s) ∧
    t.kind = .identifier ∧ t.text = "import".toList ∧ t.doc = String.ofList (groupText comments) ∧ r'.Holds [] ∧
      r'.tokenLine = r'.place.line := by
  have htext : "import ".toList ++ s = "import".toList ++ ' ' :: s := rfl
  rw [htext, Reader.tokens_identifier (by decide) (stops_cons (by decide) _), Reader.tokens_blank]
  refine ⟨_, _, rfl, rfl, rfl, Reader.docAbove_of_holds h, nofun, ?_⟩
  have hline : ((r.place.after "import".toList).after [' ']).line = r.place.line := by
    rw [Reader.line_after_of_not_mem (by decide), Reader.line_after_of_not_mem (by decide)]
  exact hline.symm

theorem inheritDoc_empty (is : List Import) : (inheritDoc "" is).map pathAndDoc = is.map pathAndDoc := by
  unfold inheritDoc
  split
  · rename_i i
    by_cases hdoc : i.doc = ""
    · rw [if_pos hdoc]
      simp [pathAndDoc, hdoc]
    · rw [if_neg hdoc]
  · rfl

theorem declares_written (d : WrittenDecl) (h : r.Holds []) (hline : r.tokenLine ≤ r.place.line) (s : List Char) :
    ∃ r', Declares filename (r.tokens (d.text ++ s)) (Reader.tokens r' s) d.declared ∧ r'.Holds [] ∧
      r'.tokenLine = r'.place.line := by
  have hbelow := Reader.below_newline (Nat.le_of_lt (Reader.below_newline hline))
  cases d with
  | single i =>
    have htext : (WrittenDecl.single i).text ++ s = '\n' :: '\n' :: (i.above ++ ("import ".toList ++ (i.text ++ s))) := by
      simp only [WrittenDecl.text, List.cons_append, List.append_assoc]
    obtain ⟨r₁, habove, hheld⟩ := tokens_above i (r := (r.skip ['\n']).skip ['\n']) h hbelow
    obtain ⟨t, r₂, htokens, hkind, hword, htdoc, hholds, hat⟩ := tokens_import hheld (i.text ++ s)
    obtain ⟨_, _, j, r', hbegins, hspec, hpath, hdoc, hholds', hat'⟩ := importSpec_written filename i hholds s
    rw [htext, Reader.tokens_newline, Reader.tokens_newline, habove]
    refine ⟨r', ⟨t, _, [j], htokens, hkind, hword, importDecl_single filename hbegins hspec, ?_⟩, hholds', hat'⟩
    have hempty : j.doc = "" := hdoc
    have hinherits : inheritDoc t.doc [j] = [{ j with doc := t.doc }] := by simp [inheritDoc, hempty]
    have hdeclared : pathAndDoc { j with doc := t.doc } = i.declared := pathAndDoc_of_written hpath htdoc
    rw [hinherits, List.map_singleton, hdeclared]
    rfl
  | block is =>
    have htext : (WrittenDecl.block is).text ++ s =
        '\n' :: '\n' :: ("import ".toList ++ '(' :: (WrittenDecl.blockText is ++ s)) := by
      simp only [WrittenDecl.text, List.cons_append, List.append_assoc]
    have hheld : ((r.skip ['\n']).skip ['\n']).Holds [] := h
    obtain ⟨t, r₂, htokens, hkind, hword, htdoc, hholds, hat⟩ := tokens_import hheld ('(' :: (WrittenDecl.blockText is ++ s))
    have hmark : r₂.place.line = (r₂.place.after ['(']).line := (Reader.line_after_of_not_mem (by decide) _).symm
    obtain ⟨js, r', -, hblock, hjs, hend⟩ :=
      importBlock_written filename is (r := r₂.past (r₂.place.next '(')) (Reader.holds_past _) hmark s
    rw [htext, Reader.tokens_newline, Reader.tokens_newline]
    refine ⟨r', ⟨t, _, js, htokens, hkind, hword, ?_, ?_⟩, hend⟩
    · rw [Reader.tokens_mark (Or.inl rfl), importDecl_block filename rfl rfl, hblock]
    · have hempty : t.doc = "" := htdoc
      rw [hempty, inheritDoc_empty, hjs]
      rfl

theorem importDecls_declares {ts after : Tokens} {declared : List (String × String)} (h : Declares filename ts after declared) :
    ts.dropSemicolon = ts ∧ (importDecls filename ts).2 = (importDecls filename after.dropSemicolon).2 ∧
      (importDecls filename ts).1.map pathAndDoc = declared ++ (importDecls filename after.dropSemicolon).1.map pathAndDoc := by
  obtain ⟨t, rest, is, rfl, hkind, hword, hdecl, hdeclared⟩ := h
  have hsemicolon : t.text ≠ [';'] := by
    rw [hword]
    decide
  have hdecls : importDecls filename (.token t rest) = (inheritDoc t.doc is ++ (importDecls filename after.dropSemicolon).1,
      (importDecls filename after.dropSemicolon).2) := by
    rw [importDecls]
    simp only [Tokens.next]
    rw [dif_pos ⟨hkind, hword⟩]
    split
    · rename_i hd
      cases hdecl.symm.trans hd
    · rename_i hd
      cases hdecl.symm.trans hd
      rfl
  rw [hdecls]
  refine ⟨?_, rfl, by rw [List.map_append, hdeclared]⟩
  rw [Tokens.dropSemicolon, if_neg hsemicolon]

/-- The imports are at an end where no declaration of imports follows. -/
theorem importDecls_other {ts rest : Tokens} {t : Token} (hnext : ts.next = .ok (t, rest))
    (hword : t.kind = .eof ∨ t.text ≠ "import".toList) : importDecls filename ts = ([], none) := by
  have hother : ¬ (t.kind = .identifier ∧ t.text = "import".toList) := by
    rintro ⟨hkind, htext⟩
    rcases hword with heof | hword
    · rw [heof] at hkind
      cases hkind
    · exact hword htext
  rw [importDecls]
  split
  · rename_i he
    cases hnext.symm.trans he
  · rename_i he
    cases hnext.symm.trans he
    rw [dif_neg hother]

theorem importDecls_end (e : WrittenEnd) : (r.tokens e.text).dropSemicolon = r.tokens e.text ∧
    importDecls filename (r.tokens e.text) = ([], none) := by
  cases e with
  | nothing =>
    have htokens : r.tokens WrittenEnd.nothing.text = .eof r.place := by
      rw [WrittenEnd.text, Reader.tokens, lexemes]
      rfl
    rw [htokens]
    exact ⟨rfl, importDecls_other filename (t := ⟨.eof, [], r.place, ""⟩) rfl (Or.inl rfl)⟩
  | newline =>
    have htokens : r.tokens WrittenEnd.newline.text = .eof (r.skip ['\n']).place := by
      rw [WrittenEnd.text, Reader.tokens_newline, Reader.tokens, lexemes]
      rfl
    rw [htokens]
    exact ⟨rfl, importDecls_other filename (t := ⟨.eof, [], (r.skip ['\n']).place, ""⟩) rfl (Or.inl rfl)⟩
  | declaration keyword more hkeyword =>
    have hword : isIdentifier keyword = true ∧ keyword ≠ "import".toList ∧ keyword ≠ [';'] := by
      revert keyword
      decide
    have htext : (WrittenEnd.declaration keyword more hkeyword).text = '\n' :: '\n' :: (keyword ++ ' ' :: more) := rfl
    rw [htext, Reader.tokens_newline, Reader.tokens_newline, Reader.tokens_identifier hword.1 (stops_cons (by decide) _)]
    exact ⟨by rw [Tokens.dropSemicolon, if_neg hword.2.2], importDecls_other filename rfl (Or.inr hword.2.1)⟩

/-- The imports of all declarations, from behind the package clause or a declaration on. -/
theorem importDecls_written (ds : List WrittenDecl) (e : WrittenEnd) (h : r.Holds []) (hline : r.tokenLine ≤ r.place.line) :
    (r.tokens (ds.flatMap WrittenDecl.text ++ e.text)).dropSemicolon = r.tokens (ds.flatMap WrittenDecl.text ++ e.text) ∧
      (importDecls filename (r.tokens (ds.flatMap WrittenDecl.text ++ e.text))).2 = none ∧
      (importDecls filename (r.tokens (ds.flatMap WrittenDecl.text ++ e.text))).1.map pathAndDoc =
        ds.flatMap WrittenDecl.declared := by
  induction ds generalizing r with
  | nil =>
    obtain ⟨hdrop, hdecls⟩ := importDecls_end filename e (r := r)
    rw [List.flatMap_nil, List.nil_append, hdecls]
    exact ⟨hdrop, rfl, rfl⟩
  | cons d ds ih =>
    obtain ⟨r', hdeclares, hholds, hat⟩ := declares_written filename d h hline (ds.flatMap WrittenDecl.text ++ e.text)
    obtain ⟨hdrop, hnone, hmore⟩ := ih hholds (Nat.le_of_eq hat)
    obtain ⟨hfirst, herror, himports⟩ := importDecls_declares filename hdeclares
    have htext : (d :: ds).flatMap WrittenDecl.text ++ e.text = d.text ++ (ds.flatMap WrittenDecl.text ++ e.text) := by simp
    rw [htext, List.flatMap_cons, himports, herror, hdrop]
    exact ⟨hfirst, hnone, by rw [hmore]⟩

/-! ## The clause -/

theorem blank_of_mem_space : ∀ c ∈ [' '], isBlank c = true := List.forall_mem_singleton.mpr (by decide)

theorem head_body (w : WrittenHeader) : ∀ c ∈ w.body.head?, c = '\n' := by
  intro c hc
  cases hdecls : w.decls with
  | nil =>
    simp only [WrittenHeader.body, hdecls, List.flatMap_nil, List.nil_append] at hc
    cases hrest : w.rest <;> rw [hrest] at hc <;> cases hc <;> rfl
  | cons d ds =>
    simp only [WrittenHeader.body, hdecls, List.flatMap_cons] at hc
    cases d <;> cases hc <;> rfl

theorem stops_body (w : WrittenHeader) {p : Char → Bool} (hp : p '\n' = false) : Stops p w.body :=
  fun c hc => head_body w c hc ▸ hp

theorem not_mem_importText (c : WrittenComment) {d : Char} (hd : isImportPath [d] = false)
    (hword : d ∉ ' ' :: "import".toList ++ [' ', '"']) : d ∉ c.importText := by
  have hpath := not_mem_of_isImportPath c.isImportPath hd
  have htext : c.importText = (' ' :: "import".toList ++ [' ', '"']) ++ c.path ++ ['"'] := by
    simp [WrittenComment.importText]
  rw [htext]
  intro hmem
  rcases List.mem_append.mp hmem with hmem | hmem
  · rcases List.mem_append.mp hmem with hmem | hmem
    · exact hword hmem
    · exact hpath hmem
  · exact hword (by rw [List.mem_singleton.mp hmem]; decide)

theorem trimStart_of_stops {p : Char → Bool} {blanks s : List Char} (hblanks : ∀ c ∈ blanks, p c = true) (hs : Stops p s) :
    trimStart p (blanks ++ s) = s := (span_append hblanks hs).2

theorem star_not_mem_importText (c : WrittenComment) : '*' ∉ c.importText ++ [' '] := by
  have := not_mem_importText c (d := '*') (by decide) (by decide)
  simpa using this

theorem WrittenComment.text_line {c : WrittenComment} (h : c.inBlock = false) : c.text = ' ' :: '/' :: '/' :: c.importText := by
  simp [text, h]

theorem WrittenComment.text_block {c : WrittenComment} (h : c.inBlock = true) :
    c.text = ' ' :: '/' :: '*' :: (c.importText ++ [' '] ++ ['*', '/']) := by
  simp [text, h]

theorem commentText_of_eq_none {w : WrittenHeader} (h : w.comment = none) : w.commentText = [] := by
  simp [WrittenHeader.commentText, h]

theorem commentText_of_eq_some {w : WrittenHeader} {c : WrittenComment} (h : w.comment = some c) : w.commentText = c.text := by
  simp [WrittenHeader.commentText, h]

theorem isPrefixOf?_importText (c : WrittenComment) (rest : List Char) :
    "import".toList.isPrefixOf? (trimStart isBlank (c.importText ++ rest)) = some (' ' :: c.quoted ++ rest) := by
  have htext : c.importText ++ rest = [' '] ++ ("import".toList ++ (' ' :: c.quoted ++ rest)) := by
    simp [WrittenComment.importText, WrittenComment.quoted]
  have hword : Stops isBlank ("import".toList ++ (' ' :: c.quoted ++ rest)) := by
    intro d hd
    cases hd
    decide
  rw [htext, trimStart_of_stops blank_of_mem_space hword, isPrefixOf?_append]

/-- The path in its quotes is left of what follows the word. -/
theorem trim_quoted (c : WrittenComment) {rest : List Char} (hrest : ∀ d ∈ rest, isBlank d = true) :
    trim isBlank (' ' :: c.quoted ++ rest) = c.quoted := by
  have hquoted : Stops isBlank (c.quoted ++ rest) := stops_cons (by decide) _
  have hlast : ∀ d ∈ c.quoted.getLast?, isBlank d = false := by
    intro d hd
    have hquote : c.quoted.getLast? = some '"' := List.getLast?_concat (l := '"' :: c.path)
    cases hquote.symm.trans hd
    decide
  rw [trim, List.cons_append, ← List.singleton_append, trimStart_of_stops blank_of_mem_space hquoted, trimEnd_append_of_forall hrest,
    trimEnd_of_getLast? hlast]

theorem importComment?_written (w : WrittenHeader) :
    importComment? (w.commentText ++ w.body) = w.comment.map WrittenComment.quoted := by
  have hbody : Stops (· ≠ '\n') w.body := stops_body w (by decide)
  cases hcomment : w.comment with
  | none =>
    obtain ⟨hline, -⟩ := takeWhile_line List.not_mem_nil hbody
    rw [commentText_of_eq_none hcomment]
    simp only [importComment?, hline]
    rfl
  | some c =>
    have hfeed := not_mem_importText c (d := '\n') (by decide) (by decide)
    have hquote : '"' ∉ c.path := not_mem_of_isImportPath c.isImportPath (by decide)
    have hcut : cutAt? ['"'] (c.path ++ ['"']) = some (c.path, []) := cutAt?_append hquote [] []
    have hslash (s : List Char) : trimStart isBlank (' ' :: '/' :: s) = '/' :: s ∧ trimStart isBlank ('/' :: s) = '/' :: s := by
      have hstops : Stops isBlank ('/' :: s) := stops_cons (by decide) s
      exact ⟨trimStart_of_stops blank_of_mem_space hstops, trimStart_of_stops (List.forall_mem_nil _) hstops⟩
    rw [commentText_of_eq_some hcomment]
    cases hkind : c.inBlock with
    | false =>
      obtain ⟨hline, -⟩ := takeWhile_line (l := ' ' :: '/' :: '/' :: c.importText) (by simpa using hfeed) hbody
      have hword := isPrefixOf?_importText c []
      have htrim := trim_quoted c (List.forall_mem_nil _)
      rw [List.append_nil, List.append_nil] at hword
      rw [List.append_nil] at htrim
      simp only [c.text_line hkind, importComment?, hline, (hslash _).1, (hslash _).2, List.head?_cons, Option.some.injEq,
        Char.reduceEq, if_false, Option.bind_eq_bind, Option.bind_some, hword, htrim]
      simp [WrittenComment.quoted, hcut]
    | true =>
      obtain ⟨hline, -⟩ := takeWhile_line (l := ' ' :: '/' :: '*' :: (c.importText ++ [' '] ++ ['*', '/'])) (by simpa using hfeed) hbody
      have hword := isPrefixOf?_importText c [' ']
      have htrim : trim isBlank (' ' :: c.quoted ++ [' ']) = c.quoted := trim_quoted c blank_of_mem_space
      have hended : cutAt? ['*', '/'] (c.importText ++ [' '] ++ ['*', '/']) = some (c.importText ++ [' '], []) :=
        cutAt?_append (star_not_mem_importText c) ['/'] []
      simp only [c.text_block hkind, importComment?, hline, (hslash _).1, (hslash _).2, List.head?_cons, Option.some.injEq,
        Char.reduceEq, if_false, Option.bind_eq_bind, hended, Option.map_some, Option.bind_some, hword, htrim]
      simp [WrittenComment.quoted, hcut]

/-- The comment after the package's name belongs to the name. -/
theorem tokens_commentText (w : WrittenHeader) (h : r.Holds []) (hline : r.tokenLine = r.place.line) :
    ∃ r' : Reader, r.tokens (w.commentText ++ w.body) = r'.tokens w.body ∧ r'.Holds [] ∧ r'.tokenLine ≤ r'.place.line := by
  have hat : (r.skip [' ']).tokenLine = (r.skip [' ']).place.line := by
    rw [Reader.skip, Reader.line_after_of_not_mem (by decide), hline]
  have hpast (s : List Char) : ((r.skip [' ']).comment s).Holds [] ∧
      ((r.skip [' ']).comment s).tokenLine ≤ ((r.skip [' ']).comment s).place.line := by
    refine ⟨Reader.holds_comment_nil (r := r.skip [' ']) h hat, ?_⟩
    simp only [Reader.comment, Reader.line_after, hat]
    exact Nat.le_add_right _ _
  cases hcomment : w.comment with
  | none => exact ⟨r, by rw [commentText_of_eq_none hcomment, List.nil_append], h, Nat.le_of_eq hline⟩
  | some c =>
    rw [commentText_of_eq_some hcomment]
    cases hkind : c.inBlock with
    | false =>
      have htext : c.text ++ w.body = ' ' :: ('/' :: '/' :: c.importText ++ w.body) := by rw [c.text_line hkind]; rfl
      have hfeed := not_mem_importText c (d := '\n') (by decide) (by decide)
      rw [htext, Reader.tokens_blank, Reader.tokens_lineComment hfeed (stops_body w (by decide))]
      exact ⟨_, rfl, hpast _⟩
    | true =>
      have htext : c.text ++ w.body = ' ' :: ('/' :: '*' :: (c.importText ++ [' ']) ++ '*' :: '/' :: w.body) := by
        simp [c.text_block hkind]
      rw [htext, Reader.tokens_blank, Reader.tokens_blockComment (star_not_mem_importText c)]
      exact ⟨_, rfl, hpast _⟩

theorem stops_commentText (w : WrittenHeader) : Stops isNamePart (w.commentText ++ w.body) := by
  cases hcomment : w.comment with
  | none =>
    rw [commentText_of_eq_none hcomment]
    exact stops_body w (by decide)
  | some c =>
    obtain ⟨s, hs⟩ : ∃ s, c.text = ' ' :: s := by
      cases hkind : c.inBlock with
      | false => exact ⟨_, c.text_line hkind⟩
      | true => exact ⟨_, c.text_block hkind⟩
    rw [commentText_of_eq_some hcomment, hs]
    exact stops_cons (by decide) _

/-- What is read for the comment is the text behind the name. -/
theorem textAfter_written (w : WrittenHeader) : textAfter 2 (lexemes w.text) = w.commentText ++ w.body := by
  have hpackage : lexemes w.text = .identifier "package".toList :: lexemes (' ' :: (w.packageName ++ (w.commentText ++ w.body))) :=
    lexemes_identifier (by decide) (stops_cons (by decide) _)
  have hname := lexemes_identifier w.isPackageName (stops_commentText w)
  rw [hpackage, lexemes_blank (Or.inl rfl), hname]
  simp only [textAfter, Lexeme.isToken, if_true, Bool.false_eq_true, if_false, flatMap_text_lexemes]

theorem clause_written (w : WrittenHeader) : (clause filename w.text).packageName = String.ofList w.packageName ∧
    (clause filename w.text).error = none ∧ (clause filename w.text).imports.map pathAndDoc = w.declared ∧
      (clause filename w.text).importComment = String.ofList ((w.comment.map WrittenComment.quoted).getD []) ∧
      (clause filename w.text).importCommentLine = if w.comment.isSome then 1 else 0 := by
  let start : Reader := ⟨{}, 0, none⟩
  let named : Reader := (start.past (start.place.after "package".toList)).skip [' ']
  have hline : (named.place.after w.packageName).line = named.place.line :=
    Reader.line_after_of_not_mem (newline_not_mem_identifier w.isPackageName) _
  obtain ⟨r, htokens, hholds, hat⟩ :=
    tokens_commentText (r := named.past (named.place.after w.packageName)) w (Reader.holds_past _) hline.symm
  obtain ⟨hdrop, herror, himports⟩ := importDecls_written filename w.decls w.rest hholds hat
  have hpackage : Tokens.ofLexemes (lexemes w.text) =
      .token ⟨.identifier, "package".toList, start.place, ""⟩ (named.tokens (w.packageName ++ (w.commentText ++ w.body))) := by
    have hword := start.tokens_identifier (s := ' ' :: (w.packageName ++ (w.commentText ++ w.body)))
      (show isIdentifier "package".toList = true by decide) (stops_cons (by decide) _)
    rw [Reader.tokens_blank] at hword
    exact hword
  have hname : named.tokens (w.packageName ++ (w.commentText ++ w.body)) =
      .token ⟨.identifier, w.packageName, named.place, docAbove named.group named.place.line⟩ (r.tokens w.body) := by
    rw [Reader.tokens_identifier w.isPackageName (stops_commentText w), htokens]
  have hclause : clause filename w.text = clauseAfterPackage filename (String.ofList (synopsis []))
      (w.commentText ++ w.body) (named.tokens (w.packageName ++ (w.commentText ++ w.body))) := by
    unfold clause
    simp only [hpackage, Tokens.next, textAfter_written]
    rfl
  have hdrop : (r.tokens w.body).dropSemicolon = r.tokens w.body := hdrop
  have herror : (importDecls filename (r.tokens w.body)).2 = none := herror
  rw [hclause, hname]
  unfold clauseAfterPackage
  simp only [Tokens.next, ne_eq, not_true_eq_false, if_false, hdrop, herror, importComment?_written, Option.isSome_map]
  exact ⟨trivial, trivial, himports, trivial, rfl⟩

/-- The header of a file that is written by parts has these. -/
theorem scan_written {name path : String} (w : WrittenHeader) (hname : isGoName name = true) :
    ∃ h, Header.scan name path (Utf8.encode w.text) = .ok h ∧ h.packageName = String.ofList w.packageName ∧
      h.parseError = none ∧ h.imports.map pathAndDoc = w.declared ∧
      h.importComment = String.ofList ((w.comment.map WrittenComment.quoted).getD []) ∧
      h.importCommentLine = if w.comment.isSome then 1 else 0 := by
  obtain ⟨hpackage, herror, himports, hcomment, hline⟩ := clause_written path w
  obtain ⟨l, hl⟩ : ∃ l, leading? (Utf8.encode w.text) = some l := exists_leading? _
  have hscan : ∃ h : Header, Header.scan name path (Utf8.encode w.text) = .ok (h.addClause path w.text) := by
    unfold Header.scan
    simp only [hl, hname, Utf8.decode_encode]
    exact ⟨_, rfl⟩
  obtain ⟨h, hscan⟩ := hscan
  refine ⟨_, hscan, hpackage, ?_, himports, hcomment, ?_⟩
  · simp only [Header.addClause, herror, Option.map_none]
  · simp only [Header.addClause, hline]
    split <;> rfl

def mixedHeader : WrittenHeader where
  packageName := "main".toList
  comment := some ⟨false, "x.org/main".toList, by decide⟩
  decls := [
    .single ⟨[], ["int f();".toList], none, "C".toList, nofun, by decide, nofun, by decide⟩,
    .block [⟨['\t'], [], some ['.'], "fmt".toList, List.forall_mem_singleton.mpr (Or.inr rfl), nofun, by decide, by decide⟩,
      ⟨['\t'], ["for b".toList, " and c".toList], some "b".toList, "x.org/b".toList, List.forall_mem_singleton.mpr (Or.inr rfl),
        by decide, by decide, by decide⟩]]
  rest := .declaration "func".toList "main() \x7b\x7d".toList (by decide)
  isPackageName := by decide

example : String.ofList mixedHeader.text =
    "package main // import \"x.org/main\"\n\n// int f();\nimport \"C\"\n\nimport (\n\t. \"fmt\"\n\t// for b\n\t//  and c\n\tb \"x.org/b\"\n)\n\nfunc main() \x7b\x7d" := by decide +kernel

theorem mixedHeader_scanned : isGoName "a.go" = true ∧ ∃ h, Header.scan "a.go" "m/a.go" (Utf8.encode mixedHeader.text) = .ok h ∧
    h.packageName = "main" ∧ h.parseError = none ∧
    h.imports.map pathAndDoc = [("C", "int f();\n"), ("fmt", ""), ("x.org/b", "for b\n and c\n")] ∧
    h.importComment = "\"x.org/main\"" ∧ h.importCommentLine = 1 :=
  ⟨by decide, scan_written mixedHeader (by decide)⟩

end PackageIndex.Source
