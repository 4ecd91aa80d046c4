/-
  PackageIndex.Proofs.Source.ImportPlaces — imports stand in their source where they say.

  Tokens are counted on from one to the next. A literal between quotes is taken for a part of
  one line, which it is not if a backslash goes with a line feed in it; then all places behind
  it are wrong. But such a literal stands for nothing, and no import is read past it.

  - `stand_ofLexemesFrom`: tokens stand at their places, as long as the literals before them are
    well formed.
  - `spelt_importDecls`: imports are spelt one behind the other, each at its place.
  - `scan_imports`: the imports in the header of a file, well formed or not.
-/

import PackageIndex.Proofs.Fallible
import PackageIndex.Proofs.Source.Lexing
import PackageIndex.Proofs.Source.Literal
import PackageIndex.Proofs.Source.Place
import PackageIndex.Source.Header

namespace PackageIndex.Source

/-! ## Texts -/

/-- White space and comments, each to its end. -/
inductive IsGap : List Char → Prop
  | nil : IsGap []
  | blank {c : Char} {s : List Char} (hc : c = ' ' ∨ c = '\t' ∨ c = '\r' ∨ c = '\n') : IsGap s → IsGap (c :: s)
  | lineComment {l s : List Char} (hl : '\n' ∉ l) : IsGap s → IsGap ('/' :: '/' :: l ++ '\n' :: s)
  | blockComment {l s : List Char} (hl : ¬ ['*', '/'] <:+: l) : IsGap s → IsGap ('/' :: '*' :: l ++ '*' :: '/' :: s)

/-- An import of the path is spelt: by a literal, or by a name or a point and a literal behind white space and comments. -/
inductive SpellsImport (path : String) : List Char → Prop
  | bare {literal : List Char} (h : literalText? literal = some path.toList) : SpellsImport path literal
  | labelled {label gap literal : List Char} (hlabel : isIdentifier label = true ∨ label = ['.']) (hgap : IsGap gap)
    (h : literalText? literal = some path.toList) : SpellsImport path (label ++ gap ++ literal)

theorem IsGap.of_newline {s : List Char} (h : IsGap ('\n' :: s)) : IsGap s := by
  generalize hs : '\n' :: s = t at h
  cases h with
  | nil => cases hs
  | blank _ hrest =>
    obtain ⟨-, rfl⟩ := List.cons.inj hs
    exact hrest
  | lineComment => exact absurd (List.cons.inj hs).1 (by decide)
  | blockComment => exact absurd (List.cons.inj hs).1 (by decide)

theorem literal_ne_nil {literal path : List Char} (h : literalText? literal = some path) : literal ≠ [] := by
  rintro rfl
  cases h

theorem SpellsImport.ne_nil {path : String} {spec : List Char} (h : SpellsImport path spec) : spec ≠ [] := by
  cases h with
  | bare h => exact literal_ne_nil h
  | labelled _ _ h => exact List.append_ne_nil_of_right_ne_nil _ (literal_ne_nil h)

/-! ## Tokens -/

/-- The text of a token, by its kind. -/
structure Token.Spelt (t : Token) : Prop where
  identifier : t.kind = .identifier → isIdentifier t.text = true
  string : t.kind = .string → t.text.head? = some '"' ∨ t.text.head? = some '`'
  head : ∃ c s, t.text = c :: s ∧ c ≠ '\n'

/-- The token is a name, or one of the marks that are looked for. -/
def Token.IsWord (t : Token) : Prop := t.kind = .identifier ∨ t.text ∈ [['('], [')'], [';'], ['.']]

/-- The token is no string literal, or one that stands for something. -/
def Token.Intact (t : Token) : Prop := t.kind = .string → (literalText? t.text).isSome = true

/-- The tokens are those of `s`, which stands behind `before`: each behind white space and comments, at the place
that it names. -/
def Tokens.Stand (before s : List Char) : Tokens → Prop
  | .token t rest => ∃ gap after, s = gap ++ (t.text ++ after) ∧ IsGap gap ∧ t.Spelt ∧ t.place = placeBehind (before ++ gap) ∧
      (t.Intact → rest.Stand (before ++ gap ++ t.text) after)
  | _ => True

variable {before s lead : List Char} {filename : String}

/-- White space and comments in front of the tokens belong to the first one. -/
theorem Tokens.Stand.behind {ts : Tokens} (h : ts.Stand (before ++ lead) s)
    (hlead : ∀ gap c rest, s = gap ++ c :: rest → c ≠ '\n' → IsGap gap → IsGap (lead ++ gap)) : ts.Stand before (lead ++ s) := by
  cases ts with
  | token t rest =>
    obtain ⟨gap, after, rfl, hgap, hspelt, hplace, hrest⟩ := h
    obtain ⟨c, text, htext, hc⟩ := hspelt.head
    refine ⟨lead ++ gap, after, (List.append_assoc _ _ _).symm, ?_, hspelt, ?_, ?_⟩
    · exact hlead gap c (text ++ after) (by rw [htext]; rfl) hc hgap
    · rw [hplace, List.append_assoc]
    · rw [← List.append_assoc before]
      exact hrest
  | eof p => trivial
  | broken e => trivial

/-- A token that is read stands at its place, and the next ones behind it. -/
theorem stand_token {t : Token} {rest : Tokens} {after : List Char} (hs : s = t.text ++ after) (hspelt : t.Spelt)
    (hplace : t.place = placeBehind before) (hrest : t.Intact → rest.Stand (before ++ t.text) after) :
    (Tokens.token t rest).Stand before s :=
  ⟨[], after, hs, .nil, hspelt, by rw [List.append_nil, hplace], by rwa [List.append_nil]⟩

theorem isGap_lineComment {gap rest : List Char} {c : Char} (hrest : s.dropWhile (· ≠ '\n') = gap ++ c :: rest) (hc : c ≠ '\n')
    (hgap : IsGap gap) : IsGap ('/' :: '/' :: s.takeWhile (· ≠ '\n') ++ gap) := by
  have hline := not_mem_takeWhile_ne '\n' s
  cases gap with
  | nil => exact absurd (eq_of_head?_dropWhile_ne (by rw [hrest]; rfl)) hc
  | cons d gap =>
    have hd : d = '\n' := eq_of_head?_dropWhile_ne (by rw [hrest]; rfl)
    subst hd
    exact .lineComment hline hgap.of_newline

theorem intact_interpreted {text : List Char} {t : Token} (htext : t.text = '"' :: text) (hkind : t.kind = .string) (h : t.Intact) :
    '\n' ∉ t.text := by
  obtain ⟨value, hvalue⟩ := Option.isSome_iff_exists.mp (h hkind)
  rw [htext] at hvalue ⊢
  exact newline_not_mem_interpreted hvalue

theorem stand_ofLexemesFrom (before s : List Char) (tokenLine : Nat) (g : Option Group) :
    (Tokens.ofLexemesFrom (placeBehind before) tokenLine g (lexemes s)).Stand before s := by
  fun_induction lexemes s generalizing before tokenLine g with
  | case1 => trivial
  | case2 s ih =>
    rw [Tokens.ofLexemesFrom, next_placeBehind]
    exact (ih (before ++ ['\n']) tokenLine g).behind fun gap _ _ _ _ => .blank (.inr (.inr (.inr rfl)))
  | case3 s ih =>
    rw [Tokens.ofLexemesFrom, after_placeBehind]
    have hbehind (g : Option Group) := (ih (before ++ '/' :: '/' :: s.takeWhile (· ≠ '\n')) tokenLine g).behind
      fun gap c rest => isGap_lineComment
    rw [List.cons_append, List.cons_append, List.takeWhile_append_dropWhile] at hbehind
    exact hbehind _
  | case4 => trivial
  | case5 s body rest hcut ih =>
    rw [Tokens.ofLexemesFrom, after_placeBehind, ← append_of_cutAt? hcut]
    have hbehind (g : Option Group) := (ih (before ++ ('/' :: '*' :: body ++ ['*', '/'])) tokenLine g).behind
      fun gap _ _ _ _ hgap => by simpa using IsGap.blockComment (not_isInfix_of_cutAt? hcut) hgap
    exact hbehind _
  | case6 => trivial
  | case7 s n hlength ih =>
    have hs : '"' :: s = '"' :: s.take n ++ s.drop n := by rw [List.cons_append, List.take_append_drop]
    refine stand_token hs ⟨by simp, fun _ => .inl rfl, _, _, rfl, by decide⟩ rfl fun hintact => ?_
    rw [along_eq_after (intact_interpreted rfl rfl hintact), after_placeBehind]
    exact ih _ _ _
  | case8 => trivial
  | case9 s body rest hcut ih =>
    have hs : '`' :: s = '`' :: body ++ ['`'] ++ rest := by rw [List.cons_append, List.cons_append, append_of_cutAt? hcut]
    refine stand_token hs ⟨by simp, fun _ => .inr rfl, _, _, rfl, by decide⟩ rfl fun _ => ?_
    rw [after_placeBehind]
    exact ih _ _ _
  | case10 c s _ _ _ _ _ hspace ih =>
    rw [Tokens.ofLexemesFrom, next_placeBehind]
    exact (ih (before ++ [c]) tokenLine g).behind fun gap _ _ _ _ => .blank (by
      rcases hspace with h | h | h
      · exact .inl h
      · exact .inr (.inl h)
      · exact .inr (.inr (.inl h)))
  | case11 c s hfeed _ _ _ _ _ hstart ih =>
    have hidentifier : isIdentifier (c :: s.takeWhile isNamePart) = true :=
      Bool.and_eq_true_iff.mpr ⟨hstart, List.all_eq_true.mpr fun _ hc => List.mem_takeWhile_imp hc⟩
    have hs : c :: s = c :: s.takeWhile isNamePart ++ s.dropWhile isNamePart := by
      rw [List.cons_append, List.takeWhile_append_dropWhile]
    refine stand_token hs ⟨fun _ => hidentifier, by simp, _, _, rfl, hfeed⟩ rfl fun _ => ?_
    rw [after_placeBehind]
    exact ih _ _ _
  | case12 c s hfeed _ _ _ _ _ _ ih =>
    have hs : c :: s = [c] ++ s := rfl
    refine stand_token hs ⟨by simp, by simp, _, _, rfl, hfeed⟩ rfl fun _ => ?_
    rw [next_placeBehind]
    exact ih _ _ _

/-! ## Imports -/

/-- The imports are spelt in `s`, one behind the other, each at its position; `s` stands behind `before`. -/
def SpeltIn (filename : String) (before s : List Char) : List Import → Prop
  | [] => True
  | i :: is => ∃ gap spec after, s = gap ++ (spec ++ after) ∧ SpellsImport i.path spec ∧
      i.position = (placeBehind (before ++ gap)).position filename ∧ SpeltIn filename (before ++ gap ++ spec) after is

theorem SpeltIn.behind {is : List Import} (h : SpeltIn filename (before ++ lead) s is) : SpeltIn filename before (lead ++ s) is := by
  cases is with
  | nil => trivial
  | cons i is =>
    obtain ⟨gap, spec, after, rfl, hspec, hplace, hrest⟩ := h
    refine ⟨lead ++ gap, spec, after, (List.append_assoc _ _ _).symm, hspec, ?_, ?_⟩
    · rw [hplace, List.append_assoc]
    · rw [← List.append_assoc before]
      exact hrest

theorem SpeltIn.append {is js : List Import} {more : List Char} (his : SpeltIn filename before s is)
    (hjs : SpeltIn filename (before ++ s) more js) : SpeltIn filename before (s ++ more) (is ++ js) := by
  induction is generalizing before s with
  | nil => exact hjs.behind
  | cons i is ih =>
    obtain ⟨gap, spec, after, rfl, hspec, hplace, hrest⟩ := his
    refine ⟨gap, spec, after ++ more, by simp, hspec, hplace, ih hrest ?_⟩
    simpa using hjs

/-- Wherever the tokens stand, the imports are spelt there, and the tokens that are left stand behind them. -/
def Reads (filename : String) (ts : Tokens) (is : List Import) (r : Except ClauseError Tokens) : Prop :=
  ∀ before s, ts.Stand before s → match r with
    | .ok rest => ∃ read after, s = read ++ after ∧ SpeltIn filename before read is ∧ rest.Stand (before ++ read) after
    | .error _ => SpeltIn filename before s is

variable {ts rest : Tokens} {is js : List Import} {r : Except ClauseError Tokens}

theorem Reads.append (his : Reads filename ts is (.ok rest)) (hjs : Reads filename rest js r) :
    Reads filename ts (is ++ js) r := by
  intro before s hts
  obtain ⟨read, after, rfl, hread, hrest⟩ := his before s hts
  cases r with
  | error e => exact hread.append (hjs _ _ hrest)
  | ok rest' =>
    obtain ⟨read', after', rfl, hread', hrest'⟩ := hjs _ _ hrest
    refine ⟨read ++ read', after', (List.append_assoc _ _ _).symm, hread.append hread', ?_⟩
    rwa [← List.append_assoc]

theorem reads_nothing (ts : Tokens) : Reads filename ts [] (.ok ts) :=
  fun before s hts => ⟨[], s, rfl, trivial, by rwa [List.append_nil]⟩

theorem reads_error (ts : Tokens) (e : ClauseError) : Reads filename ts [] (.error e) := fun _ _ _ => trivial

theorem stand_next {t : Token} (h : ts.Stand before s) (hnext : ts.next = .ok (t, rest)) (hend : t.kind = .eof → t.text ≠ []) :
    ∃ gap after, s = gap ++ (t.text ++ after) ∧ IsGap gap ∧ t.Spelt ∧ t.place = placeBehind (before ++ gap) ∧
      (t.Intact → rest.Stand (before ++ gap ++ t.text) after) := by
  cases ts with
  | token u more =>
    cases hnext
    exact h
  | eof p =>
    cases hnext
    exact absurd rfl (hend rfl)
  | broken e => cases hnext

theorem Token.IsWord.ne_nil {t : Token} (h : t.IsWord) (hkind : t.kind = .eof) : t.text ≠ [] := by
  intro hnil
  rcases h with hname | hmark
  · cases hkind.symm.trans hname
  · rw [hnil] at hmark
    exact absurd hmark (by decide)

theorem Token.Spelt.intact {t : Token} (h : t.Spelt) (hword : t.IsWord) : t.Intact := by
  intro hstring
  rcases hword with hname | hmark
  · cases hstring.symm.trans hname
  · have hquote : ∀ text ∈ [['('], [')'], [';'], ['.']], text.head? ≠ some '"' ∧ text.head? ≠ some '`' := by decide
    rcases h.string hstring with hhead | hhead
    · exact absurd hhead (hquote _ hmark).1
    · exact absurd hhead (hquote _ hmark).2

/-- A name or a mark is passed. -/
theorem reads_next {t : Token} (hnext : ts.next = .ok (t, rest)) (hword : t.IsWord) : Reads filename ts [] (.ok rest) := by
  intro before s hts
  obtain ⟨gap, after, rfl, -, hspelt, -, hrest⟩ := stand_next hts hnext hword.ne_nil
  refine ⟨gap ++ t.text, after, (List.append_assoc _ _ _).symm, trivial, ?_⟩
  rw [← List.append_assoc]
  exact hrest (hspelt.intact hword)

theorem isWord_of_mark {t : Token} {c : Char} (h : t.text = [c]) (hc : [c] ∈ [['('], [')'], [';'], ['.']]) : t.IsWord :=
  .inr (h ▸ hc)

theorem reads_dropSemicolon (ts : Tokens) : Reads filename ts [] (.ok ts.dropSemicolon) := by
  cases ts with
  | token t rest =>
    rw [Tokens.dropSemicolon]
    split
    · rename_i hmark
      exact reads_next rfl (isWord_of_mark hmark (by decide))
    · exact reads_nothing _
  | eof p => exact reads_nothing _
  | broken e => exact reads_nothing _

theorem literal_of_pathOf {t : Token} {path : String} (h : pathOf t = .ok path) : literalText? t.text = some path.toList := by
  unfold pathOf at h
  split at h
  · cases h
  · split at h
    · cases h
    · rename_i text htext
      split at h
      · cases h
        rw [htext, String.toList_ofList]
      · cases h

theorem importSpec_eq_ok {i : Import} (h : importSpec filename ts = .ok (i, rest)) : ∃ start more literal,
    ts.next = .ok (start, more) ∧ specLiteral start more = .ok (literal, rest) ∧ pathOf literal = .ok i.path ∧
      i.position = start.place.position filename := by
  obtain ⟨⟨start, more⟩, hstart, h⟩ := Fallible.bind_eq_ok.mp h
  obtain ⟨⟨literal, after⟩, hliteral, h⟩ := Fallible.bind_eq_ok.mp h
  obtain ⟨path, hpath, h⟩ := Fallible.bind_eq_ok.mp h
  cases h
  exact ⟨start, more, literal, hstart, hliteral, hpath, rfl⟩

theorem reads_importSpec {i : Import} (h : importSpec filename ts = .ok (i, rest)) : Reads filename ts [i] (.ok rest) := by
  intro before s hts
  obtain ⟨start, more, literal, hnext, hliteral, hpath, hposition⟩ := importSpec_eq_ok h
  have htext := literal_of_pathOf hpath
  have hintact : literal.Intact := fun _ => by simp [htext]
  unfold specLiteral at hliteral
  split at hliteral
  · -- a name or a point in front of the literal
    rename_i hlabel
    have hword : start.IsWord := hlabel.imp_right fun hpoint => by rw [hpoint]; decide
    obtain ⟨gap, behind, rfl, -, hspelt, hplace, hmore⟩ := stand_next hts hnext hword.ne_nil
    obtain ⟨gap', after, rfl, hgap', -, -, hrest⟩ :=
      stand_next (hmore (hspelt.intact hword)) hliteral fun _ => literal_ne_nil htext
    have hspec : SpellsImport i.path (start.text ++ gap' ++ literal.text) :=
      .labelled (hlabel.imp_left hspelt.identifier) hgap' htext
    refine ⟨gap ++ (start.text ++ gap' ++ literal.text), after, by simp, ?_, by simpa using hrest hintact⟩
    exact ⟨gap, _, [], by simp, hspec, by rw [hposition, hplace], trivial⟩
  · cases hliteral
    obtain ⟨gap, after, rfl, -, -, hplace, hrest⟩ := stand_next hts hnext fun _ => literal_ne_nil htext
    refine ⟨gap ++ start.text, after, by simp, ?_, by simpa using hrest hintact⟩
    exact ⟨gap, _, [], by simp, .bare htext, by rw [hposition, hplace], trivial⟩

theorem reads_importBlock (filename : String) (ts : Tokens) :
    Reads filename ts (importBlock filename ts).1 (importBlock filename ts).2 := by
  fun_induction importBlock filename ts with
  | case1 ts e hnext => exact reads_error ts e
  | case2 ts t rest hnext hmark => exact reads_next hnext (isWord_of_mark hmark (by decide))
  | case3 ts t rest hnext hmark e hspec => exact reads_error ts e
  | case4 ts t rest hnext hmark i rest' hspec is after hblock ih =>
    rw [hblock] at ih
    exact (reads_importSpec hspec).append ((reads_dropSemicolon rest').append ih)

theorem reads_importDecl (filename : String) (ts : Tokens) :
    Reads filename ts (importDecl filename ts).1 (importDecl filename ts).2 := by
  unfold importDecl
  split
  · exact reads_error ts _
  · rename_i t rest hnext
    split
    · rename_i hmark
      exact (reads_next hnext (isWord_of_mark hmark (by decide))).append (reads_importBlock filename rest)
    · split
      · exact reads_error ts _
      · rename_i hspec
        exact reads_importSpec hspec

theorem Reads.inheritDoc (h : Reads filename ts is r) (doc : String) : Reads filename ts (Source.inheritDoc doc is) r := by
  have hspelt {before s : List Char} (h : SpeltIn filename before s is) : SpeltIn filename before s (Source.inheritDoc doc is) := by
    unfold Source.inheritDoc
    split
    · split <;> exact h
    · exact h
  intro before s hts
  have hread := h before s hts
  cases r with
  | error e => exact hspelt hread
  | ok rest =>
    obtain ⟨read, after, hs, hread, hrest⟩ := hread
    exact ⟨read, after, hs, hspelt hread, hrest⟩

/-- All imports of the declarations that were read, whatever ended the reading. -/
theorem spelt_importDecls (h : ts.Stand before s) : SpeltIn filename before s (importDecls filename ts).1 := by
  fun_induction importDecls filename ts generalizing before s with
  | case1 => trivial
  | case2 ts t rest hnext hkeyword is e hdecl =>
    have hread := (reads_next hnext (.inl hkeyword.1)).append (reads_importDecl filename rest)
    rw [hdecl] at hread
    exact hread before s h
  | case3 ts t rest hnext hkeyword is rest' hdecl more e hmore ih =>
    have hread := reads_importDecl filename rest
    rw [hdecl] at hread
    rw [hmore] at ih
    obtain ⟨read, after, rfl, hspelt, hrest⟩ := ((reads_next hnext (.inl hkeyword.1)).append
      ((hread.inheritDoc t.doc).append (reads_dropSemicolon rest'))) before s h
    rw [List.nil_append, List.append_nil] at hspelt
    exact hspelt.append (ih hrest)
  | case4 => trivial

/-! ## The header -/

/-- Imports that are spelt one behind the other have positions that increase, each that of its text. -/
theorem places_of_speltIn {is : List Import} (h : SpeltIn filename before s is) (hsize : Utf8.size (before ++ s) < 0x100000000) :
    is.Pairwise (fun i j => i.position.offset < j.position.offset) ∧
      ∀ i ∈ is, ∃ gap spec after, s = gap ++ spec ++ after ∧ i.position.StandsBehind (before ++ gap) ∧ SpellsImport i.path spec := by
  induction is generalizing before s with
  | nil => exact ⟨.nil, by simp⟩
  | cons i is ih =>
    obtain ⟨gap, spec, after, rfl, hspec, hplace, hrest⟩ := h
    have hspecSize := Utf8.size_pos hspec.ne_nil
    have hstands : i.position.StandsBehind (before ++ gap) := by
      rw [hplace]
      refine standsBehind_position filename ?_
      simp only [Utf8.size_append] at hsize ⊢
      omega
    obtain ⟨hpairwise, hmore⟩ := ih hrest (by simpa using hsize)
    refine ⟨List.pairwise_cons.mpr ⟨fun j hj => ?_, hpairwise⟩, List.forall_mem_cons.mpr ⟨?_, fun j hj => ?_⟩⟩
    · obtain ⟨gap', spec', after', -, hstands', -⟩ := hmore j hj
      rw [UInt32.lt_iff_toNat_lt, hstands.offset, hstands'.offset]
      simp only [Utf8.size_append]
      omega
    · exact ⟨gap, spec, after, (List.append_assoc _ _ _).symm, hstands, hspec⟩
    · obtain ⟨gap', spec', after', rfl, hstands', hspec'⟩ := hmore j hj
      exact ⟨gap ++ spec ++ gap', spec', after', by simp, by simpa using hstands', hspec'⟩

theorem speltIn_clauseAfterPackage {synopsis : String} {afterName : List Char} (h : ts.Stand before s) :
    SpeltIn filename before s (clauseAfterPackage filename synopsis afterName ts).imports := by
  unfold clauseAfterPackage
  split
  · trivial
  · rename_i name rest hname
    split
    · trivial
    · rename_i hkind
      have hreads : Reads filename ts [] (.ok rest.dropSemicolon) :=
        (reads_next hname (.inl (Decidable.not_not.mp hkind))).append (reads_dropSemicolon rest)
      obtain ⟨read, after, rfl, -, hrest⟩ := hreads before s h
      simp only
      split
      · trivial
      · exact (spelt_importDecls hrest).behind

theorem speltIn_clause (filename : String) (source : List Char) : SpeltIn filename [] source (clause filename source).imports := by
  have hsource : (Tokens.ofLexemes (lexemes source)).Stand [] source := stand_ofLexemesFrom [] source 0 none
  unfold clause
  simp only
  split
  · trivial
  · rename_i t rest hnext
    split
    · rename_i hkeyword
      have hreads : Reads filename _ [] (.ok rest) := reads_next hnext (.inl hkeyword.1)
      obtain ⟨read, after, rfl, -, hrest⟩ := hreads [] source hsource
      exact (speltIn_clauseAfterPackage hrest).behind
    · trivial

/-- Whatever the source holds, and whatever ends the reading. -/
theorem scan_imports {name path : String} {source : List Char} {h : Header} (hsize : (Utf8.encode source).length < 0x100000000)
    (hscan : Header.scan name path (Utf8.encode source) = .ok h) :
    h.imports.Pairwise (fun i j => i.position.offset < j.position.offset) ∧
      ∀ i ∈ h.imports, i.position.offset.toNat < (Utf8.encode source).length ∧
        ∃ before spec after, source = before ++ spec ++ after ∧ i.position.StandsBehind before ∧ SpellsImport i.path spec := by
  rw [Utf8.length_encode] at hsize ⊢
  have hspelt : SpeltIn path [] source h.imports := by
    rcases (declared_of_scan hscan).1 with himports | himports
    · rw [himports]
      trivial
    · rw [himports]
      exact speltIn_clause path source
  obtain ⟨hpairwise, hplaces⟩ := places_of_speltIn hspelt hsize
  refine ⟨hpairwise, fun i hi => ?_⟩
  obtain ⟨before, spec, after, hsource, hstands, hspec⟩ := hplaces i hi
  refine ⟨?_, before, spec, after, hsource, hstands, hspec⟩
  have hspecSize := Utf8.size_pos hspec.ne_nil
  rw [hstands.offset, hsource]
  simp only [Utf8.size_append, List.nil_append]
  omega

def partedImports : List Char :=
  "package a\n\n/* é\n*/ import (\n\t_ /* b */ // c\n\t\"x/b\"; \"\\x64\"\n\t\"\\\n\"\n\t\"e\"\n)\n".toList

def partedHeader : Header where
  packageName := "a"
  imports := [{ path := "x/b", position := ⟨"m/a.go", 30, 5, 2⟩ }, { path := "d", position := ⟨"m/a.go", 53, 6, 9⟩ }]
  parseError := some "m/a.go:7:2: invalid quoted import path \"\\\n\""

theorem partedImports_places : (Utf8.encode partedImports).length < 0x100000000 ∧
    Header.scan "a.go" "m/a.go" (Utf8.encode partedImports) = .ok partedHeader ∧
    partedHeader.imports.Pairwise (fun i j => i.position.offset < j.position.offset) ∧
    ∀ i ∈ partedHeader.imports, i.position.offset.toNat < (Utf8.encode partedImports).length ∧
      ∃ before spec after, partedImports = before ++ spec ++ after ∧ i.position.StandsBehind before ∧ SpellsImport i.path spec := by
  have hsize : (Utf8.encode partedImports).length < 0x100000000 := by decide +kernel
  have hscan : Header.scan "a.go" "m/a.go" (Utf8.encode partedImports) = .ok partedHeader := by decide +kernel
  exact ⟨hsize, hscan, scan_imports hsize hscan⟩

end PackageIndex.Source
