/-
  PackageIndex.Proofs.Source.Scanning — what goes with what in a header.

  Errors stop the reading at any token, and what was read before is kept. So a header may
  lack a part, but no part stands without those it depends on.

  - `scanned_clause`: the clause of a source.
  - `scanned_scan`: the header of a file.
-/

import PackageIndex.Proofs.Source.Clause
import PackageIndex.Proofs.Source.Documentation
import PackageIndex.Proofs.Source.Leading
import PackageIndex.Source.Header

namespace PackageIndex.Source

/-! ## Tokens -/

theorem text_ne_nil_of_mem_lexemes {s : List Char} {l : Lexeme} (h : l ∈ lexemes s) : l.text ≠ [] := by
  fun_induction lexemes s with
  | case1 => cases h
  | case4 => simp_all [Lexeme.text]
  | case6 => simp_all [Lexeme.text]
  | case8 => simp_all [Lexeme.text]
  | _ =>
    rename_i ih
    rcases List.mem_cons.mp h with rfl | h
    · simp [Lexeme.text]
    · exact ih h

theorem list_of_next {ts rest : Tokens} {t : Token} (h : ts.next = .ok (t, rest)) :
    (t.kind ≠ .eof → t ∈ ts.list) ∧ rest.list ⊆ ts.list := by
  cases ts with
  | token u more =>
    cases h
    exact ⟨fun _ => List.mem_cons_self, List.subset_cons_self _ _⟩
  | eof p =>
    cases h
    exact ⟨fun hkind => absurd rfl hkind, List.Subset.refl _⟩
  | broken e => cases h

/-! ## The clause -/

theorem message_ne_empty (filename : String) (e : ClauseError) : e.message filename ≠ "" := by
  have hplace (p : Place) (s : String) : p.text ++ ": " ++ s ≠ "" := by simp
  cases e with
  | lexical e =>
    simp only [ClauseError.message]
    split
    · exact hplace _ _
    · simp
  | _ => simp [ClauseError.message]

structure Clause.Scanned (c : Clause) : Prop where
  packageName : c.error = none → c.packageName ≠ ""
  importComment : c.importCommentLine ≠ 0 → c.importComment ≠ ""
  docs : ∀ i ∈ c.imports, Tidy i.doc.toList

theorem scanned_error (synopsis : String) (e : ClauseError) : Clause.Scanned { synopsis, error := some e } :=
  ⟨by simp, by simp, by simp⟩

theorem scanned_clauseAfterPackage {filename synopsis : String} {afterName : List Char} {ts : Tokens}
    (htexts : ∀ t ∈ ts.list, t.text ≠ []) (hdocs : ∀ doc ∈ ts.docs, Tidy doc.toList) :
    (clauseAfterPackage filename synopsis afterName ts).Scanned := by
  unfold clauseAfterPackage
  split
  · exact scanned_error _ _
  · rename_i name rest hn
    split
    · exact scanned_error _ _
    · rename_i hkind
      have hidentifier : name.kind = .identifier := Decidable.not_not.mp hkind
      have hname := htexts name ((list_of_next hn).1 (by rw [hidentifier]; decide))
      constructor
      · intro _
        simpa using hname
      · cases hcomment : importComment? afterName with
        | none => simp
        | some comment =>
          obtain ⟨⟨quote, path, rfl⟩, -⟩ := quoted_of_importComment? hcomment
          simp
      · intro i hi
        have hmem : i ∈ (importDecls filename rest.dropSemicolon).1 := by
          simp only at hi
          split at hi
          · cases hi
          · exact hi
        exact hdocs _ ((docs_of_next hn).2 (docs_dropSemicolon rest (doc_of_mem_importDecls hmem)))

/-- Whatever the source. -/
theorem scanned_clause (filename : String) (source : List Char) : (clause filename source).Scanned := by
  have htexts : ∀ t ∈ (Tokens.ofLexemes (lexemes source)).list, t.text ≠ [] := by
    intro t ht
    obtain ⟨⟨l, hl, htext⟩, -⟩ := origin_of_mem_tokens ht
    rw [htext]
    exact text_ne_nil_of_mem_lexemes hl
  have hdocs : ∀ doc ∈ (Tokens.ofLexemes (lexemes source)).docs, Tidy doc.toList := by
    refine List.forall_mem_cons.mpr ⟨tidy_nil, fun doc hdoc => ?_⟩
    obtain ⟨t, ht, rfl⟩ := List.mem_map.mp hdoc
    obtain ⟨-, g, hg⟩ := origin_of_mem_tokens ht
    rw [hg]
    exact tidy_docAbove g _
  unfold clause
  simp only
  split
  · exact scanned_error _ _
  · rename_i t rest hn
    split
    · refine scanned_clauseAfterPackage (fun u hu => ?_) fun doc hdoc => hdocs doc ((docs_of_next hn).2 hdoc)
      exact htexts u ((list_of_next hn).2 hu)
    · exact scanned_error _ _

/-! ## The header -/

structure Header.Constrained (h : Header) : Prop where
  goBuild : h.goBuild ≠ "" → Constraint.isGoBuildLine h.goBuild.toList = true ∧ h.plusBuild = []
  plusBuild : ∀ line ∈ h.plusBuild, Constraint.isPlusBuildLine line.toList = true

structure Header.Scanned (name : String) (h : Header) : Prop extends h.Constrained where
  parseError : ∀ message ∈ h.parseError, message ≠ ""
  packageName : isGoName name = true → h.parseError = none → h.packageName ≠ ""
  importComment : h.importCommentLine ≠ 0 → h.importComment ≠ ""
  embeds : h.embeds ≠ [] → h.parseError = none ∧ ∃ i ∈ h.imports, i.path = "embed"
  docs : ∀ i ∈ h.imports, Tidy i.doc.toList

theorem Header.Constrained.addClause {h : Header} (hh : h.Constrained) (name filename : String) (source : List Char) :
    (h.addClause filename source).Scanned name := by
  have hclause := scanned_clause filename source
  refine ⟨⟨hh.goBuild, hh.plusBuild⟩, ?_, fun _ herror => ?_, fun hline => ?_, fun hembeds => ?_, hclause.docs⟩
  · intro message hmessage
    obtain ⟨e, -, rfl⟩ := Option.map_eq_some_iff.mp hmessage
    exact message_ne_empty filename e
  · exact hclause.packageName (Option.map_eq_none_iff.mp herror)
  · refine hclause.importComment fun hzero => hline ?_
    simp [Header.addClause, hzero]
  · simp only [Header.addClause] at hembeds ⊢
    split at hembeds
    · rename_i hread
      simpa using hread
    · exact absurd rfl hembeds

/-- Whatever the content. -/
theorem scanned_scan {name path : String} {content : List UInt8} {h : Header} (hscan : Header.scan name path content = .ok h) :
    h.Scanned name := by
  unfold Header.scan at hscan
  split at hscan
  · cases hscan
  · rename_i l hl
    obtain ⟨hgo, hplus⟩ := constraints_of_leading? hl
    have hleading (parseError : Option String) : Header.Constrained
        { goBuild := String.ofList (l.goBuild.getD [])
          plusBuild := l.plusBuild.map String.ofList
          binaryOnly := l.binaryOnly
          parseError } := by
      constructor
      · intro hne
        cases hbuild : l.goBuild with
        | none => simp [hbuild] at hne
        | some text =>
          obtain ⟨hline, hnone⟩ := hgo text hbuild
          simp [hline, hnone]
      · intro line hline
        obtain ⟨text, htext, rfl⟩ := List.mem_map.mp hline
        simpa using hplus text htext
    simp only at hscan
    split at hscan
    · rename_i hgoName
      cases hscan
      exact ⟨hleading none, by simp, fun h => absurd h hgoName, by simp, by simp, by simp⟩
    · split at hscan
      · cases hscan
        exact ⟨hleading _, by simp, by simp, by simp, by simp, by simp⟩
      · rename_i source _
        cases hscan
        exact (hleading none).addClause name path source

end PackageIndex.Source
