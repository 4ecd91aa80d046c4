/-
  PackageIndex.Proofs.Source.Documentation — the comments that imports are documented by.

  - `tidy_groupText`: the text of comments is made of lines without white space at their ends,
    of which none at the ends of the text is blank and no two in a row are.
  - `doc_of_mem_importDecls`: the comment of an import is that of a token, of its own or of its
    declaration's keyword, or there is none.
-/

import Mathlib.Data.List.Chain
import PackageIndex.Proofs.Fallible
import PackageIndex.Proofs.Text.Parts
import PackageIndex.Source.Clause

namespace PackageIndex.Source

/-! ## Tidy texts -/

structure TidyLines (lines : List (List Char)) : Prop where
  noFeed : ∀ l ∈ lines, '\n' ∉ l
  /-- No line ends in white space. -/
  trimmed : ∀ l ∈ lines, ∀ c ∈ l.getLast?, isBlank c = false
  first : lines.head? ≠ some []
  last : lines.getLast? ≠ some []
  apart : lines.IsChain fun a b => a ≠ [] ∨ b ≠ []

/-- The text is empty, or lines that are tidy and each ended by one line feed. -/
def Tidy (s : List Char) : Prop := ∃ lines, TidyLines lines ∧ s = lines.flatMap (· ++ ['\n'])

theorem tidy_nil : Tidy [] := ⟨[], ⟨by simp, by simp, by simp, by simp, .nil⟩, rfl⟩

theorem squeeze_isChain (blank : Bool) (lines : List (List Char)) :
    (squeeze blank lines).IsChain (fun a b => a ≠ [] ∨ b ≠ []) ∧ (blank = true → (squeeze blank lines).head? ≠ some []) := by
  fun_induction squeeze blank lines with
  | case1 => exact ⟨.nil, by simp⟩
  | case2 lines ih => exact ⟨ih.1, fun _ => ih.2 rfl⟩
  | case3 blank lines hblank ih =>
    refine ⟨List.isChain_cons.mpr ⟨fun b hb => Or.inr ?_, ih.1⟩, fun h => absurd h hblank⟩
    rintro rfl
    exact ih.2 rfl hb
  | case4 blank l lines hl ih =>
    have hne : l ≠ [] := by simpa using hl
    exact ⟨List.isChain_cons.mpr ⟨fun b _ => Or.inl hne, ih.1⟩, by simp [hne]⟩

theorem mem_of_mem_squeeze {blank : Bool} {lines : List (List Char)} {l : List Char} (h : l ∈ squeeze blank lines) :
    l ∈ lines := by
  fun_induction squeeze blank lines with
  | case1 => cases h
  | case2 lines ih => exact List.mem_cons_of_mem _ (ih h)
  | case3 blank lines hblank ih =>
    rcases List.mem_cons.mp h with rfl | h
    · exact List.mem_cons_self
    · exact List.mem_cons_of_mem _ (ih h)
  | case4 blank l' lines hne ih =>
    rcases List.mem_cons.mp h with rfl | h
    · exact List.mem_cons_self
    · exact List.mem_cons_of_mem _ (ih h)

/-- The text of comments is tidy, whatever they hold. -/
theorem tidy_groupText (comments : List (List Char)) : Tidy (groupText comments) := by
  refine ⟨_, ?_, rfl⟩
  generalize hraw : ((comments.filterMap commentBody?).flatMap fun body =>
    (body.splitOnP (· == '\n')).map (trimEnd isBlank)) = raw
  obtain ⟨hapart, hfirst⟩ := squeeze_isChain true raw
  have hfront : trimEnd List.isEmpty (squeeze true raw) <+: squeeze true raw := trimEnd_isPrefix _ _
  have hline : ∀ l ∈ trimEnd List.isEmpty (squeeze true raw), ∃ piece, l = trimEnd isBlank piece ∧ '\n' ∉ piece := by
    intro l hl
    have hmem := mem_of_mem_squeeze (hfront.subset hl)
    rw [← hraw] at hmem
    obtain ⟨body, -, hl⟩ := List.mem_flatMap.mp hmem
    obtain ⟨piece, hpiece, rfl⟩ := List.mem_map.mp hl
    exact ⟨piece, rfl, fun hfeed => by simpa using not_of_mem_splitOnP hpiece _ hfeed⟩
  constructor
  · intro l hl
    obtain ⟨piece, rfl, hfeed⟩ := hline l hl
    exact fun hmem => hfeed ((trimEnd_isPrefix _ _).subset hmem)
  · intro l hl c hc
    obtain ⟨piece, rfl, -⟩ := hline l hl
    exact not_of_getLast?_trimEnd hc
  · obtain ⟨rest, hrest⟩ := hfront
    intro hhead
    apply hfirst rfl
    rw [← hrest, List.head?_append, hhead]
    rfl
  · intro hlast
    have := not_of_getLast?_trimEnd hlast
    simp at this
  · obtain ⟨rest, hrest⟩ := hfront
    rw [← hrest] at hapart
    exact (List.isChain_append.mp hapart).1

theorem tidy_docAbove (g : Option Group) (line : Nat) : Tidy (docAbove g line).toList := by
  unfold docAbove
  split
  · split
    · rw [String.toList_ofList]
      exact tidy_groupText _
    · exact tidy_nil
  · exact tidy_nil

/-! ## The tokens of a source -/

def Tokens.list : Tokens → List Token
  | .token t rest => t :: rest.list
  | _ => []

/-- A token is a lexeme, and documented by comments above its line. -/
theorem origin_of_mem_tokens {p : Place} {tokenLine : Nat} {g : Option Group} {ls : List Lexeme} {t : Token}
    (h : t ∈ (Tokens.ofLexemesFrom p tokenLine g ls).list) :
    (∃ l ∈ ls, t.text = l.text) ∧ ∃ g, t.doc = docAbove g t.place.line := by
  have hmore {l : Lexeme} {ls : List Lexeme} {Q : Prop} (hls : (∃ m ∈ ls, t.text = m.text) ∧ Q) :
      (∃ m ∈ l :: ls, t.text = m.text) ∧ Q := by
    obtain ⟨⟨m, hm, ht⟩, hq⟩ := hls
    exact ⟨⟨m, List.mem_cons_of_mem l hm, ht⟩, hq⟩
  fun_induction Tokens.ofLexemesFrom p tokenLine g ls with
  | case1 => cases h
  | case2 _ _ _ _ _ ih => exact hmore (ih h)
  | case3 _ _ _ _ ih => exact hmore (ih h)
  | case4 _ _ _ _ _ ih => exact hmore (ih h)
  | case5 _ _ _ _ _ ih => exact hmore (ih h)
  | case6 _ _ g _ _ ih =>
    rcases List.mem_cons.mp h with rfl | h
    · exact ⟨⟨_, List.mem_cons_self, rfl⟩, g, rfl⟩
    · exact hmore (ih h)
  | case7 _ _ g _ _ ih =>
    rcases List.mem_cons.mp h with rfl | h
    · exact ⟨⟨_, List.mem_cons_self, rfl⟩, g, rfl⟩
    · exact hmore (ih h)
  | case8 _ _ g _ _ ih =>
    rcases List.mem_cons.mp h with rfl | h
    · exact ⟨⟨_, List.mem_cons_self, rfl⟩, g, rfl⟩
    · exact hmore (ih h)
  | case9 _ _ g _ _ ih =>
    rcases List.mem_cons.mp h with rfl | h
    · exact ⟨⟨_, List.mem_cons_self, rfl⟩, g, rfl⟩
    · exact hmore (ih h)
  | case10 => cases h

/-! ## The comments of imports -/

variable {filename : String} {ts rest : Tokens}

/-- The comments of the tokens, and that of the end, which has none. -/
def Tokens.docs (ts : Tokens) : List String := "" :: ts.list.map (·.doc)

theorem docs_of_next {t : Token} (h : ts.next = .ok (t, rest)) : t.doc ∈ ts.docs ∧ rest.docs ⊆ ts.docs := by
  cases ts with
  | token u more =>
    cases h
    exact ⟨by simp [Tokens.docs, Tokens.list], by simp [Tokens.docs, Tokens.list]⟩
  | eof p =>
    cases h
    exact ⟨List.mem_cons_self, List.Subset.refl _⟩
  | broken e => cases h

theorem docs_dropSemicolon (ts : Tokens) : ts.dropSemicolon.docs ⊆ ts.docs := by
  cases ts with
  | token t more =>
    simp only [Tokens.dropSemicolon]
    split
    · simp [Tokens.docs, Tokens.list]
    · exact List.Subset.refl _
  | _ => exact List.Subset.refl _

open Fallible in
theorem docs_of_importSpec {i : Import} (h : importSpec filename ts = .ok (i, rest)) :
    i.doc ∈ ts.docs ∧ rest.docs ⊆ ts.docs := by
  obtain ⟨⟨start, mid⟩, hstart, h⟩ := bind_eq_ok.mp h
  obtain ⟨⟨literal, after⟩, hliteral, h⟩ := bind_eq_ok.mp h
  obtain ⟨path, -, h⟩ := bind_eq_ok.mp h
  cases h
  obtain ⟨hdoc, hmid⟩ := docs_of_next hstart
  refine ⟨hdoc, ?_⟩
  simp only [specLiteral] at hliteral
  split at hliteral
  · exact List.Subset.trans (docs_of_next hliteral).2 hmid
  · cases hliteral
    exact hmid

theorem docs_of_importBlock (filename : String) (ts : Tokens) : (∀ i ∈ (importBlock filename ts).1, i.doc ∈ ts.docs) ∧
    ∀ rest, (importBlock filename ts).2 = .ok rest → rest.docs ⊆ ts.docs := by
  fun_induction importBlock filename ts with
  | case1 => exact ⟨by simp, by simp⟩
  | case2 ts t after hn _ =>
    refine ⟨by simp, fun rest h => ?_⟩
    cases h
    exact (docs_of_next hn).2
  | case3 => exact ⟨by simp, by simp⟩
  | case4 ts t _ hn _ i after hs is result hb ih =>
    obtain ⟨hdoc, hafter⟩ := docs_of_importSpec hs
    have hsub : after.dropSemicolon.docs ⊆ ts.docs := List.Subset.trans (docs_dropSemicolon after) hafter
    rw [hb] at ih
    exact ⟨List.forall_mem_cons.mpr ⟨hdoc, fun j hj => hsub (ih.1 j hj)⟩, fun rest h => List.Subset.trans (ih.2 rest h) hsub⟩

theorem docs_of_importDecl (filename : String) (ts : Tokens) : (∀ i ∈ (importDecl filename ts).1, i.doc ∈ ts.docs) ∧
    ∀ rest, (importDecl filename ts).2 = .ok rest → rest.docs ⊆ ts.docs := by
  unfold importDecl
  split
  · exact ⟨by simp, by simp⟩
  · rename_i t after hn
    split
    · have hsub := (docs_of_next hn).2
      obtain ⟨hdocs, hrest⟩ := docs_of_importBlock filename after
      exact ⟨fun i hi => hsub (hdocs i hi), fun rest h => List.Subset.trans (hrest rest h) hsub⟩
    · split
      · exact ⟨by simp, by simp⟩
      · rename_i i after' hs
        obtain ⟨hdoc, hafter⟩ := docs_of_importSpec hs
        refine ⟨by simpa using hdoc, fun rest h => ?_⟩
        cases h
        exact hafter

theorem doc_of_mem_inheritDoc {doc : String} {is : List Import} {i : Import} (h : i ∈ inheritDoc doc is) :
    i.doc = doc ∨ ∃ j ∈ is, i.doc = j.doc := by
  unfold inheritDoc at h
  split at h
  · rename_i j
    rw [List.mem_singleton.mp h]
    split
    · exact Or.inl rfl
    · exact Or.inr ⟨j, List.mem_cons_self, rfl⟩
  · exact Or.inr ⟨i, h, rfl⟩

/-- The comment of an import is that of a token, if there is one. -/
theorem doc_of_mem_importDecls {i : Import} (h : i ∈ (importDecls filename ts).1) : i.doc ∈ ts.docs := by
  fun_induction importDecls filename ts with
  | case1 => cases h
  | case2 ts t after hn _ is e hd =>
    have hdecl := (docs_of_importDecl filename after).1
    rw [hd] at hdecl
    exact (docs_of_next hn).2 (hdecl i h)
  | case3 ts t after hn _ is after' hd more e hm ih =>
    obtain ⟨hdoc, hafter⟩ := docs_of_next hn
    have hdecl := docs_of_importDecl filename after
    rw [hd] at hdecl
    rw [hm] at ih
    rcases List.mem_append.mp h with h | h
    · rcases doc_of_mem_inheritDoc h with hi | ⟨j, hj, hi⟩
      · rwa [hi]
      · rw [hi]
        exact hafter (hdecl.1 j hj)
    · have hsub : after'.dropSemicolon.docs ⊆ after.docs := List.Subset.trans (docs_dropSemicolon after') (hdecl.2 after' rfl)
      exact hafter (hsub (ih h))
  | case4 => cases h

end PackageIndex.Source
