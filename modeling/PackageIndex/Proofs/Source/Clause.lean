/-
  PackageIndex.Proofs.Source.Clause — what is read of a clause holds no zero that the source does not spell.

  The tokens of a source are parts of it, and the comments in front of them are too, but
  for the line feeds that end their lines. `Yields P r` says that a reading answers
  something with `P`, or stops for a reason whose message holds no zero; it goes through
  the readings of specs and declarations.

  - `plain_ofLexemes`: the tokens of a source that spells no zero.
  - `plain_clause`: every text of its clause.
-/

import PackageIndex.Proofs.Record.Texts
import PackageIndex.Proofs.Source.Documentation
import PackageIndex.Proofs.Source.Literal
import PackageIndex.Proofs.Source.Synopsis
import PackageIndex.Source.Clause

namespace PackageIndex.Source

/-! ## Comments -/

theorem subset_of_commentBody? {comment body : List Char} (h : commentBody? comment = some body) : body ⊆ comment := by
  unfold commentBody? at h
  split at h
  · cases h
    exact fun c hc => by simp [hc]
  · split at h
    · cases h
    · cases h
      exact fun c hc => by simp [hc]
  · cases h
    split
    · exact fun c hc => by simp [List.mem_of_mem_take hc]
    · exact List.Subset.refl _
  · cases h
    exact List.Subset.refl _

theorem nul_not_mem_groupText {comments : List (List Char)} (h : ∀ s ∈ comments, '\x00' ∉ s) :
    '\x00' ∉ groupText comments := by
  intro hmem
  obtain ⟨line, hline, hmem⟩ := List.mem_flatMap.mp hmem
  have hmem : '\x00' ∈ line := by simpa using hmem
  obtain ⟨body, hbody, hline⟩ := List.mem_flatMap.mp (mem_of_mem_squeeze ((trimEnd_isPrefix _ _).subset hline))
  obtain ⟨piece, hpiece, rfl⟩ := List.mem_map.mp hline
  obtain ⟨comment, hcomment, hbody⟩ := List.mem_filterMap.mp hbody
  exact h comment hcomment
    (subset_of_commentBody? hbody (subset_of_mem_splitOnP hpiece ((trimEnd_isPrefix _ _).subset hmem)))

def commentsOf (g : Option Group) : List (List Char) := (g.map (·.comments)).getD []

theorem mem_commentsOf_addComment {g : Option Group} {s c : List Char} {tokenLine first last : Nat}
    (h : c ∈ commentsOf (addComment g s tokenLine first last)) : c ∈ commentsOf g ∨ c = s := by
  unfold addComment at h
  split at h
  · split at h
    · simpa [commentsOf] using h
    · exact Or.inr (by simpa [commentsOf] using h)
  · exact Or.inr (by simpa [commentsOf] using h)

theorem nulFree_docAbove {g : Option Group} (h : ∀ s ∈ commentsOf g, '\x00' ∉ s) (line : Nat) : NulFree (docAbove g line) := by
  unfold docAbove
  split
  · split
    · exact nulFree_ofList.mpr (nul_not_mem_groupText h)
    · decide
  · decide

/-! ## Tokens -/

structure Token.Plain (t : Token) : Prop where
  text : Source.Plain t.text
  doc : NulFree t.doc

def Tokens.Plain : Tokens → Prop
  | .token t rest => t.Plain ∧ rest.Plain
  | _ => True

theorem plain_lexemes {s : List Char} (h : Plain s) : ∀ l ∈ lexemes s, Plain l.text := by
  intro l hl
  have hpart : l.text <:+: (lexemes s).flatMap Lexeme.text := isInfix_of_mem_flatMap hl
  rw [flatMap_text_lexemes] at hpart
  exact h.part hpart

theorem plain_ofLexemesFrom {p : Place} {tokenLine : Nat} {g : Option Group} {ls : List Lexeme}
    (hls : ∀ l ∈ ls, Plain l.text) (hg : ∀ s ∈ commentsOf g, '\x00' ∉ s) :
    (Tokens.ofLexemesFrom p tokenLine g ls).Plain := by
  have hrest {l : Lexeme} {ls : List Lexeme} (h : ∀ m ∈ l :: ls, Plain m.text) : ∀ m ∈ ls, Plain m.text :=
    fun m hm => h m (List.mem_cons_of_mem l hm)
  have hnone : ∀ s ∈ commentsOf none, '\x00' ∉ s := by simp [commentsOf]
  have hadd {g : Option Group} {s : List Char} {n first last : Nat} (hg : ∀ c ∈ commentsOf g, '\x00' ∉ c) (hs : Plain s) :
      ∀ c ∈ commentsOf (addComment g s n first last), '\x00' ∉ c := by
    intro c hc
    rcases mem_commentsOf_addComment hc with hc | rfl
    · exact hg c hc
    · exact hs.nul
  fun_induction Tokens.ofLexemesFrom p tokenLine g ls with
  | case1 => trivial
  | case2 _ _ _ _ _ ih => exact ih (hrest hls) hg
  | case3 _ _ _ _ ih => exact ih (hrest hls) hg
  | case4 _ _ _ s _ ih => exact ih (hrest hls) (hadd hg (hls _ List.mem_cons_self))
  | case5 _ _ _ s _ ih => exact ih (hrest hls) (hadd hg (hls _ List.mem_cons_self))
  | case6 _ _ _ _ _ ih => exact ⟨⟨hls _ List.mem_cons_self, nulFree_docAbove hg _⟩, ih (hrest hls) hnone⟩
  | case7 _ _ _ _ _ ih => exact ⟨⟨hls _ List.mem_cons_self, nulFree_docAbove hg _⟩, ih (hrest hls) hnone⟩
  | case8 _ _ _ _ _ ih => exact ⟨⟨hls _ List.mem_cons_self, nulFree_docAbove hg _⟩, ih (hrest hls) hnone⟩
  | case9 _ _ _ _ _ ih => exact ⟨⟨hls _ List.mem_cons_self, nulFree_docAbove hg _⟩, ih (hrest hls) hnone⟩
  | case10 => trivial

theorem plain_ofLexemes {s : List Char} (h : Plain s) : (Tokens.ofLexemes (lexemes s)).Plain :=
  plain_ofLexemesFrom (plain_lexemes h) (by simp [commentsOf])

theorem plain_dropSemicolon {ts : Tokens} (h : ts.Plain) : ts.dropSemicolon.Plain := by
  cases ts with
  | token t rest =>
    simp only [Tokens.dropSemicolon]
    split
    · exact h.2
    · exact h
  | _ => trivial

/-! ## Errors -/

/-- What the message about an error shows of the source has no zero. -/
def ClauseError.Shows : ClauseError → Prop
  | .lexical _ => True
  | .expected _ found => '\x00' ∉ found.text
  | .badLiteral t => '\x00' ∉ t.text
  | .badPath _ path => '\x00' ∉ path

theorem nulFree_text (p : Place) : NulFree p.text := by
  simp only [Place.text, nulFree_append]
  exact ⟨⟨nulFree_toString _, by decide⟩, nulFree_toString _⟩

theorem nulFree_message {filename : String} (hname : NulFree filename) {e : ClauseError} (he : e.Shows) :
    NulFree (e.message filename) := by
  have hcolon : NulFree ":" := by decide
  have hspace : NulFree ": " := by decide
  cases e with
  | lexical e =>
    have hwhat : NulFree e.what.message := by cases e.what <;> decide
    have hmessage : NulFree (e.place.text ++ ": " ++ e.what.message) := by simp [nulFree_text, hspace, hwhat]
    simp only [ClauseError.message]
    split
    · exact hmessage
    · exact nulFree_append.mpr ⟨nulFree_append.mpr ⟨hname, hcolon⟩, hmessage⟩
  | expected what found =>
    have hwhat : NulFree what.message := by cases what <;> decide
    have hshown : NulFree found.shown := by
      have hquote : NulFree "'" := by decide
      unfold Token.shown
      split
      · decide
      · simp only [nulFree_append, nulFree_ofList]
        exact ⟨⟨hquote, he⟩, hquote⟩
    simp only [ClauseError.message, nulFree_append]
    exact ⟨⟨⟨⟨⟨hname, hcolon⟩, nulFree_text _⟩, hspace⟩, hwhat⟩, hshown⟩
  | badLiteral t =>
    simp only [ClauseError.message, nulFree_append, nulFree_ofList]
    exact ⟨⟨⟨⟨hname, hcolon⟩, nulFree_text _⟩, by decide⟩, he⟩
  | badPath t path =>
    simp only [ClauseError.message, nulFree_append, nulFree_ofList]
    exact ⟨⟨⟨⟨hname, hcolon⟩, nulFree_text _⟩, by decide⟩, he⟩

/-! ## Readings -/

section

variable {α β : Type} {P : α → Prop} {Q : β → Prop}

/-- The reading answers something with `P`, or stops at what can be shown. -/
def Yields (P : α → Prop) : Except ClauseError α → Prop
  | .ok a => P a
  | .error e => e.Shows

theorem Yields.bind {r : Except ClauseError α} {f : α → Except ClauseError β} (hr : Yields P r)
    (hf : ∀ a, P a → Yields Q (f a)) : Yields Q (r >>= f) := by
  cases r with
  | error e => exact hr
  | ok a => exact hf a hr

end

variable {filename : String} {ts : Tokens}

theorem yields_next (h : ts.Plain) : Yields (fun r => r.1.Plain ∧ r.2.Plain) ts.next := by
  cases ts with
  | token t rest => exact h
  | eof p =>
    exact ⟨⟨plain_nil, nulFree_empty⟩, trivial⟩
  | broken e => trivial

theorem yields_specLiteral {t : Token} (ht : t.Plain) (h : ts.Plain) :
    Yields (fun r => r.1.Plain ∧ r.2.Plain) (specLiteral t ts) := by
  unfold specLiteral
  split
  · exact yields_next h
  · exact ⟨ht, h⟩

theorem yields_pathOf {t : Token} (ht : t.Plain) : Yields NulFree (pathOf t) := by
  unfold pathOf
  split
  · exact ht.text.nul
  · split
    · exact ht.text.nul
    · rename_i path hpath
      have hnul := nul_not_mem_literalText? ht.text hpath
      split
      · exact nulFree_ofList.mpr hnul
      · exact hnul

section

variable (hname : NulFree filename)
include hname

theorem yields_importSpec (h : ts.Plain) : Yields (fun r => (∀ s ∈ r.1.texts, NulFree s) ∧ r.2.Plain) (importSpec filename ts) := by
  refine (yields_next h).bind fun start hstart => ?_
  refine (yields_specLiteral hstart.1 hstart.2).bind fun literal hliteral => ?_
  refine (yields_pathOf hliteral.1).bind fun path hpath => ?_
  refine ⟨fun s hs => ?_, hliteral.2⟩
  simp only [Import.texts, List.mem_cons, List.not_mem_nil, or_false] at hs
  rcases hs with rfl | rfl | rfl
  · exact hpath
  · exact hstart.1.doc
  · exact hname

/-- The imports that were read, and what was left or why the reading stopped. -/
theorem yields_importBlock (h : ts.Plain) :
    (∀ i ∈ (importBlock filename ts).1, ∀ s ∈ i.texts, NulFree s) ∧ Yields Tokens.Plain (importBlock filename ts).2 := by
  fun_induction importBlock filename ts with
  | case1 ts e he =>
    have hnext := yields_next h
    rw [he] at hnext
    exact ⟨by simp, hnext⟩
  | case2 ts t rest hn _ =>
    have hnext := yields_next h
    rw [hn] at hnext
    exact ⟨by simp, hnext.2⟩
  | case3 ts t rest hn _ e he =>
    have hspec := yields_importSpec hname h
    rw [he] at hspec
    exact ⟨by simp, hspec⟩
  | case4 ts t rest hn _ i rest' hs is after hb ih =>
    have hspec := yields_importSpec hname h
    rw [hs] at hspec
    obtain ⟨his, hafter⟩ := ih (plain_dropSemicolon hspec.2)
    rw [hb] at his hafter
    exact ⟨List.forall_mem_cons.mpr ⟨hspec.1, his⟩, hafter⟩

theorem yields_importDecl (h : ts.Plain) :
    (∀ i ∈ (importDecl filename ts).1, ∀ s ∈ i.texts, NulFree s) ∧ Yields Tokens.Plain (importDecl filename ts).2 := by
  have hnext := yields_next h
  have hspec := yields_importSpec hname h
  unfold importDecl
  split
  · rename_i e he
    rw [he] at hnext
    exact ⟨by simp, hnext⟩
  · rename_i t rest hn
    rw [hn] at hnext
    split
    · exact yields_importBlock hname hnext.2
    · split
      · rename_i e he
        rw [he] at hspec
        exact ⟨by simp, hspec⟩
      · rename_i i rest' hs
        rw [hs] at hspec
        exact ⟨by simpa using hspec.1, hspec.2⟩

omit hname in
theorem nulFree_inheritDoc {doc : String} (hdoc : NulFree doc) {is : List Import} (h : ∀ i ∈ is, ∀ s ∈ i.texts, NulFree s) :
    ∀ i ∈ inheritDoc doc is, ∀ s ∈ i.texts, NulFree s := by
  unfold inheritDoc
  split
  · rename_i i
    have hi := h i List.mem_cons_self
    intro j hj
    rw [List.mem_singleton.mp hj]
    split
    · simp only [Import.texts, List.forall_mem_cons] at hi ⊢
      exact ⟨hi.1, hdoc, hi.2.2⟩
    · exact hi
  · exact h

theorem nulFree_importDecls (h : ts.Plain) :
    (∀ i ∈ (importDecls filename ts).1, ∀ s ∈ i.texts, NulFree s) ∧ ∀ e ∈ (importDecls filename ts).2, e.Shows := by
  fun_induction importDecls filename ts with
  | case1 ts e he =>
    have hnext := yields_next h
    rw [he] at hnext
    exact ⟨by simp, fun e' he' => Option.some.inj he' ▸ hnext⟩
  | case2 ts t rest hn _ is e hd =>
    have hnext := yields_next h
    rw [hn] at hnext
    have hdecl := yields_importDecl hname hnext.2
    rw [hd] at hdecl
    exact ⟨hdecl.1, fun e' he' => Option.some.inj he' ▸ hdecl.2⟩
  | case3 ts t rest hn _ is rest' hd more e hm ih =>
    have hnext := yields_next h
    rw [hn] at hnext
    have hdecl := yields_importDecl hname hnext.2
    rw [hd] at hdecl
    obtain ⟨hmore, he⟩ := ih (plain_dropSemicolon hdecl.2)
    rw [hm] at hmore he
    exact ⟨List.forall_mem_append.mpr ⟨nulFree_inheritDoc hnext.1.doc hdecl.1, hmore⟩, he⟩
  | case4 => exact ⟨by simp, by simp⟩

end

/-! ## The clause -/

theorem nul_not_mem_synopsis {text : List Char} (h : '\x00' ∉ text) : '\x00' ∉ synopsis text := by
  intro hmem
  rcases mem_synopsis hmem with hmem | hmem
  · exact h hmem
  · exact absurd hmem (by decide)

/-- An import comment keeps its quotes, and is all read from the text. -/
theorem quoted_of_importComment? {afterName comment : List Char} (h : importComment? afterName = some comment) :
    (∃ quote path, comment = quote :: path ++ [quote]) ∧ comment ⊆ afterName := by
  unfold importComment? at h
  extract_lets line line' read at h
  have hfirst : (afterName.takeWhile fun c => decide (c ≠ '\n')) <+: afterName := List.takeWhile_prefix _
  have hline : line ⊆ afterName := List.Subset.trans (trimStart_suffix _ _).subset hfirst.subset
  have hline' : line' ⊆ afterName := by
    refine List.Subset.trans (trimStart_suffix _ _).subset ?_
    split
    · exact List.Subset.trans (List.tail_subset line) hline
    · exact hline
  clear_value line'
  have hbody : ∃ body, body ⊆ line' ∧ read body = some comment := by
    split at h
    · rename_i body
      exact ⟨body, fun c hc => by simp [hc], h⟩
    · rename_i rest
      obtain ⟨body, hmap, h⟩ := Option.bind_eq_some_iff.mp h
      obtain ⟨⟨before, after⟩, hcut, rfl⟩ := Option.map_eq_some_iff.mp hmap
      exact ⟨before, fun c hc => by simp [subset_of_cutAt? hcut hc], h⟩
    · cases h
  obtain ⟨body, hbody, h⟩ := hbody
  obtain ⟨rest, himport, h⟩ := Option.bind_eq_some_iff.mp h
  have hrest : rest ⊆ afterName := by
    have hsuffix : rest <:+ trimStart isBlank body := ⟨_, append_of_isPrefixOf? himport⟩
    have htrim : rest ⊆ body := List.Subset.trans hsuffix.subset (trimStart_suffix _ _).subset
    exact List.Subset.trans htrim (List.Subset.trans hbody hline')
  split at h
  · cases h
  · split at h
    · cases h
    · rename_i quote tail hquote
      have htail : quote :: tail ⊆ afterName := by
        rw [← hquote]
        exact List.Subset.trans (trim_subset _ _) hrest
      split at h
      · cases h
      · obtain ⟨⟨path, after⟩, hcut, rfl⟩ := Option.map_eq_some_iff.mp h
        refine ⟨⟨quote, path, rfl⟩, fun c hc => ?_⟩
        apply htail
        rcases List.mem_append.mp hc with hc | hc
        · exact List.cons_subset_cons quote (subset_of_cutAt? hcut) hc
        · exact List.mem_cons.mpr (Or.inl (List.mem_singleton.mp hc))

theorem textAfter_suffix (n : Nat) (ls : List Lexeme) : textAfter n ls <:+ ls.flatMap Lexeme.text := by
  fun_induction textAfter n ls with
  | case1 ls => exact List.suffix_refl _
  | case2 => exact List.nil_suffix
  | case3 n l ls ih =>
    rw [List.flatMap_cons]
    exact ih.trans (List.suffix_append _ _)

structure Clause.Plain (c : Clause) : Prop where
  packageName : NulFree c.packageName
  synopsis : NulFree c.synopsis
  importComment : NulFree c.importComment
  imports : ∀ i ∈ c.imports, ∀ s ∈ i.texts, NulFree s
  error : ∀ e ∈ c.error, e.Shows

theorem plain_error {e : ClauseError} (he : e.Shows) {synopsis : String} (hsynopsis : NulFree synopsis) :
    Clause.Plain { synopsis, error := some e } := by
  exact ⟨nulFree_empty, hsynopsis, nulFree_empty, by simp, fun e' he' => Option.some.inj he' ▸ he⟩

theorem plain_clauseAfterPackage {filename synopsis : String} {afterName : List Char} {ts : Tokens} (hname : NulFree filename)
    (hsynopsis : NulFree synopsis) (hafter : '\x00' ∉ afterName) (h : ts.Plain) :
    (clauseAfterPackage filename synopsis afterName ts).Plain := by
  have hnext := yields_next h
  unfold clauseAfterPackage
  split
  · rename_i e he
    rw [he] at hnext
    exact plain_error hnext hsynopsis
  · rename_i name rest hn
    rw [hn] at hnext
    split
    · exact plain_error (e := .expected .packageName name) hnext.1.text.nul hsynopsis
    · obtain ⟨himports, herror⟩ := nulFree_importDecls hname (plain_dropSemicolon hnext.2)
      refine ⟨nulFree_ofList.mpr hnext.1.text.nul, hsynopsis, nulFree_ofList.mpr ?_, ?_, herror⟩
      · cases hcomment : importComment? afterName with
        | none => simp
        | some comment => exact fun hmem => hafter ((quoted_of_importComment? hcomment).2 hmem)
      · simp only
        split
        · simp
        · exact himports

/-- A source that spells no zero has none in its clause. -/
theorem plain_clause {filename : String} {source : List Char} (hname : NulFree filename) (h : Plain source) :
    (clause filename source).Plain := by
  have hnext := yields_next (plain_ofLexemes h)
  have hafter : '\x00' ∉ textAfter 2 (lexemes source) := by
    have hsuffix := textAfter_suffix 2 (lexemes source)
    rw [flatMap_text_lexemes] at hsuffix
    exact (h.part hsuffix.isInfix).nul
  unfold clause
  simp only
  split
  · rename_i e he
    rw [he] at hnext
    exact plain_error hnext nulFree_empty
  · rename_i t rest hn
    rw [hn] at hnext
    split
    · exact plain_clauseAfterPackage hname (nulFree_ofList.mpr (nul_not_mem_synopsis hnext.1.doc)) hafter hnext.2
    · exact plain_error (e := .expected .packageKeyword t) hnext.1.text.nul nulFree_empty

end PackageIndex.Source
