/-
  PackageIndex.Proofs.Source.Header — what is read of a file's head holds no zero that the file does not spell.

  The leading lines are read as bytes, and broken ones as U+FFFD, so only a zero byte makes
  a zero there. Patterns of embeds may be literals, in which an escape makes one too.

  - `plain_scan`: the header of a file that spells no zero.
-/

import PackageIndex.Proofs.Source.Clause
import PackageIndex.Proofs.Source.Leading
import PackageIndex.Source.Header

namespace PackageIndex.Source

/-! ## Embeds -/

theorem flatMap_text_pieces (s : List Char) : (pieces s).flatMap Piece.text = s := by
  fun_induction pieces s <;> simp_all [Piece.text, List.takeWhile_append_dropWhile]
  · rename_i h ih
    simpa using append_of_cutAt? h
  · rename_i h ih
    simpa using append_of_cutAt? h

theorem nul_not_mem_embedPatterns {offset : Nat} {s : List Char} (h : Plain s) :
    ∀ r ∈ embedPatterns offset s, '\x00' ∉ r.2 := by
  fun_induction embedPatterns offset s with
  | case1 => simp
  | case2 offset c s _ ih => exact ih (h.part (List.suffix_cons c s).isInfix)
  | case3 => simp
  | case4 => simp
  | case5 offset c s _ _ n _ pattern hpattern ih =>
    have htake : s.take n <+: s := List.take_prefix n s
    have hliteral : c :: s.take n <:+: c :: s := ((List.prefix_cons_inj c).mpr htake).isInfix
    have hrest : s.drop n <:+: c :: s := ((List.drop_suffix n s).trans (List.suffix_cons c s)).isInfix
    exact List.forall_mem_cons.mpr ⟨nul_not_mem_literalText? (h.part hliteral) hpattern, ih (h.part hrest)⟩
  | case6 offset c s _ _ bare ih =>
    have htake : s.takeWhile (!isBlank ·) <+: s := List.takeWhile_prefix _
    have hbare : bare <:+: c :: s := ((List.prefix_cons_inj c).mpr htake).isInfix
    have hrest : s.dropWhile (!isBlank ·) <:+: c :: s := ((List.dropWhile_suffix _).trans (List.suffix_cons c s)).isInfix
    exact List.forall_mem_cons.mpr ⟨(h.part hbare).nul, ih (h.part hrest)⟩

section

variable {filename : String} (hname : NulFree filename)
include hname

theorem nulFree_embedsOfComment {p : Place} {s : List Char} (h : Plain s) :
    ∀ e ∈ embedsOfComment filename p s, ∀ t ∈ e.texts, NulFree t := by
  unfold embedsOfComment
  split
  · rename_i c args hdirective
    split
    · intro e he
      obtain ⟨⟨at_, pattern⟩, hpattern, rfl⟩ := List.mem_map.mp he
      have hargs : c :: args <:+: s := by
        have hsuffix : c :: args <:+ trimEnd (· == '\r') s := ⟨_, append_of_isPrefixOf? hdirective⟩
        exact hsuffix.isInfix.trans (trimEnd_isPrefix _ s).isInfix
      have hnul := nul_not_mem_embedPatterns (h.part hargs) _ hpattern
      simp only [Embed.texts, List.forall_mem_cons]
      exact ⟨nulFree_ofList.mpr hnul, hname, by simp⟩
    · simp
  · simp

theorem nulFree_embedsOfPieces {p : Place} {clear : Bool} {ps : List Piece} (h : ∀ q ∈ ps, Plain q.text) :
    ∀ e ∈ embedsOfPieces filename p clear ps, ∀ t ∈ e.texts, NulFree t := by
  induction ps generalizing p clear with
  | nil => simp [embedsOfPieces]
  | cons q ps ih =>
    have hq := h q List.mem_cons_self
    have hrest := fun r hr => h r (List.mem_cons_of_mem q hr)
    cases q with
    | lineComment s =>
      simp only [embedsOfPieces]
      refine List.forall_mem_append.mpr ⟨?_, ih hrest⟩
      split
      · exact nulFree_embedsOfComment hname hq
      · simp
    | _ => exact ih hrest

theorem nulFree_embedsOfSource {source : List Char} (h : Plain source) :
    ∀ e ∈ embedsOfSource filename source, ∀ t ∈ e.texts, NulFree t := by
  apply nulFree_embedsOfPieces hname
  intro q hq
  have hpart : q.text <:+: (pieces source).flatMap Piece.text := isInfix_of_mem_flatMap hq
  rw [flatMap_text_pieces] at hpart
  exact h.part hpart

end

/-! ## The leading lines -/

theorem subset_of_mem_byteLines {content line : List UInt8} (h : line ∈ byteLines content) : line ⊆ content := by
  have hmem : line ∈ content.splitOnP (· == 0x0A) := by
    simp only [byteLines] at h
    split at h
    · have hdrop : (content.splitOnP (· == 0x0A)).dropLast <+: content.splitOnP (· == 0x0A) := List.dropLast_prefix _
      exact hdrop.subset h
    · exact h
  exact subset_of_mem_splitOnP hmem

structure LeadingLines.Plain (st : LeadingLines) : Prop where
  goBuild : ∀ text ∈ st.goBuild, '\x00' ∉ text
  pending : ∀ line ∈ st.pending, 0 ∉ line
  block : ∀ line ∈ st.block, 0 ∉ line

theorem plain_of_read? {st st' : LeadingLines} {lines : List (List UInt8)} (hst : st.Plain) (hlines : ∀ line ∈ lines, 0 ∉ line)
    (h : st.read? lines = some st') : st'.Plain := by
  have htrim : ∀ line ∈ lines, 0 ∉ trim isBlankByte line := fun line hline hmem => hlines line hline (trim_subset _ _ hmem)
  refine LeadingLines.keeps_read? (P := LeadingLines.Plain) ?_ ?_ ?_ ?_ hst h
  · intro st hst
    exact ⟨hst.goBuild, by simp, List.forall_mem_append.mpr ⟨hst.block, hst.pending⟩⟩
  · intro st mixed line hline hst
    exact ⟨hst.goBuild, List.forall_mem_append.mpr ⟨hst.pending, by simpa using htrim line hline⟩, hst.block⟩
  · intro st st' line hline hst hnote
    rcases LeadingLines.note?_eq_some hnote with ⟨-, rfl⟩ | rfl | rfl
    · refine ⟨fun text htext => ?_, hst.pending, hst.block⟩
      rw [← Option.some.inj htext]
      exact fun hmem => htrim line hline (Utf8.nul_of_lossy hmem)
    · exact ⟨hst.goBuild, hst.pending, hst.block⟩
    · exact hst
  · intro st inside hst
    exact ⟨hst.goBuild, hst.pending, hst.block⟩

theorem nul_not_mem_leading? {content : List UInt8} {l : Leading} (hnul : 0 ∉ content) (h : leading? content = some l) :
    '\x00' ∉ l.goBuild.getD [] ∧ ∀ line ∈ l.plusBuild, '\x00' ∉ line := by
  obtain ⟨st, hst, h⟩ := Option.bind_eq_some_iff.mp h
  cases h
  have hplain := plain_of_read? ⟨by simp, by simp, by simp⟩
    (fun line hline hmem => hnul (subset_of_mem_byteLines hline hmem)) hst
  constructor
  · cases hbuild : st.goBuild with
    | none => simp
    | some text => exact hplain.goBuild text hbuild
  · simp only
    split
    · simp
    · intro line hline
      obtain ⟨bytes, hbytes, rfl⟩ := List.mem_map.mp (List.mem_filter.mp hline).1
      exact fun hmem => hplain.block bytes hbytes (Utf8.nul_of_lossy hmem)

/-! ## The header -/

structure Header.Plain (h : Header) : Prop where
  packageName : NulFree h.packageName
  synopsis : NulFree h.synopsis
  goBuild : NulFree h.goBuild
  plusBuild : ∀ line ∈ h.plusBuild, NulFree line
  importComment : NulFree h.importComment
  imports : ∀ i ∈ h.imports, ∀ s ∈ i.texts, NulFree s
  embeds : ∀ e ∈ h.embeds, ∀ s ∈ e.texts, NulFree s
  parseError : ∀ message ∈ h.parseError, NulFree message

theorem Header.Plain.addClause {h : Header} (hh : h.Plain) {filename : String} {source : List Char} (hname : NulFree filename)
    (hsource : Source.Plain source) : (h.addClause filename source).Plain := by
  have hclause := plain_clause hname hsource
  refine ⟨hclause.packageName, hclause.synopsis, hh.goBuild, hh.plusBuild, hclause.importComment, hclause.imports, ?_, ?_⟩
  · simp only [Header.addClause]
    split
    · exact nulFree_embedsOfSource hname hsource
    · simp
  · intro message hmessage
    obtain ⟨e, he, rfl⟩ := Option.map_eq_some_iff.mp hmessage
    exact nulFree_message hname (hclause.error e he)

/-- A file that spells no zero has none in its header. -/
theorem plain_scan {name path : String} {content : List UInt8} {h : Header} (hpath : NulFree path)
    (hcontent : PlainBytes content) (hscan : Header.scan name path content = .ok h) : h.Plain := by
  unfold Header.scan at hscan
  split at hscan
  · cases hscan
  · rename_i l hl
    obtain ⟨hgo, hplus⟩ := nul_not_mem_leading? hcontent.nul hl
    have hleading (parseError : Option String) (herror : ∀ e ∈ parseError, NulFree e) :
        Header.Plain
          { goBuild := String.ofList (l.goBuild.getD [])
            plusBuild := l.plusBuild.map String.ofList
            binaryOnly := l.binaryOnly
            parseError } := by
      refine ⟨nulFree_empty, nulFree_empty, nulFree_ofList.mpr hgo, ?_, nulFree_empty, by simp, by simp, herror⟩
      intro line hline
      obtain ⟨text, htext, rfl⟩ := List.mem_map.mp hline
      exact nulFree_ofList.mpr (hplus text htext)
    simp only at hscan
    split at hscan
    · cases hscan
      exact hleading none (by simp)
    · split at hscan
      · rename_i f _
        cases hscan
        refine hleading _ fun e he => ?_
        rw [← Option.some.inj he]
        simp only [nulFree_append]
        exact ⟨⟨hpath, by decide⟩, nulFree_toString _⟩
      · rename_i source hsource
        cases hscan
        exact (hleading none (by simp)).addClause hpath (plain_of_decode hcontent hsource)

theorem nulFree_of_scan_error {name path : String} {content : List UInt8} {e : HeaderError} (hname : NulFree name)
    (hscan : Header.scan name path content = .error e) : NulFree e.message := by
  have hsuffix : NulFree ": multiple //go:build comments" := by decide
  unfold Header.scan at hscan
  split at hscan
  · cases hscan
    simp only [HeaderError.message, nulFree_append]
    exact ⟨hname, hsuffix⟩
  · simp only at hscan
    split at hscan
    · cases hscan
    · split at hscan <;> cases hscan

end PackageIndex.Source
