/-
  PackageIndex.Proofs.Source.Leading — what the leading lines of a file leave behind.

  - `LeadingLines.keeps_read?`: what every step of the reading keeps, the whole keeps.
  - `constraints_of_leading?`: what is recorded as a constraint line is one, and no `+build`
    line is recorded beside a `//go:build` line.
  - `exists_leading?`: where the first line holds text, it is the only one that is read.
-/

import PackageIndex.Proofs.Text.Parts
import PackageIndex.Source.Leading

namespace PackageIndex.Source

namespace LeadingLines

variable {st st' : LeadingLines} {line : List UInt8} {lines : List (List UInt8)}

/-- A noted line is a `//go:build` line where there was none, or the mark of a binary-only package,
or nothing. -/
theorem note?_eq_some (h : st.note? line = some st') :
    Constraint.isGoBuildLine (Utf8.lossy line) = true ∧ st' = { st with goBuild := some (Utf8.lossy line) } ∨
      st' = { st with binaryOnly := true } ∨ st' = st := by
  simp only [note?] at h
  split at h
  · rename_i hbuild
    split at h
    · cases h
    · cases h
      exact Or.inl ⟨hbuild, rfl⟩
  · split at h
    · cases h
      exact Or.inr (Or.inl rfl)
    · cases h
      exact Or.inr (Or.inr rfl)

/-- What every step keeps, the reading keeps. -/
theorem keeps_read? {P : LeadingLines → Prop}
    (hblank : ∀ st, P st → P { st with block := st.block ++ st.pending, pending := [] })
    (htake : ∀ st mixed, ∀ line ∈ lines, P st → P { st with mixed, pending := st.pending ++ [trim isBlankByte line] })
    (hnote : ∀ st st', ∀ line ∈ lines, P st → st.note? (trim isBlankByte line) = some st' → P st')
    (hinside : ∀ st inside, P st → P { st with inside }) (hst : P st) (h : st.read? lines = some st') : P st' := by
  induction lines generalizing st with
  | nil =>
    cases h
    exact hst
  | cons line lines ih =>
    have hmore {st₁ : LeadingLines} (h₁ : P st₁) (h₂ : st₁.read? lines = some st') : P st' :=
      ih (fun st mixed l hl => htake st mixed l (List.mem_cons_of_mem line hl))
        (fun st st' l hl => hnote st st' l (List.mem_cons_of_mem line hl)) h₁ h₂
    simp only [read?] at h
    split at h
    · exact hmore (hblank st hst) h
    · have htaken := htake st (st.mixed || !slashSlash.isPrefixOf (trim isBlankByte line)) line List.mem_cons_self hst
      split at h
      · obtain ⟨noted, hnoted, h⟩ := Option.bind_eq_some_iff.mp h
        cases hnoted
        split at h
        · exact hmore (hinside _ _ htaken) h
        · cases h
          exact htaken
      · obtain ⟨noted, hnoted, h⟩ := Option.bind_eq_some_iff.mp h
        have hkept := hnote _ noted line List.mem_cons_self htaken hnoted
        split at h
        · exact hmore (hinside _ _ hkept) h
        · cases h
          exact hkept

end LeadingLines

theorem constraints_of_leading? {content : List UInt8} {l : Leading} (h : leading? content = some l) :
    (∀ text ∈ l.goBuild, Constraint.isGoBuildLine text = true ∧ l.plusBuild = []) ∧
      ∀ line ∈ l.plusBuild, Constraint.isPlusBuildLine line = true := by
  obtain ⟨st, hst, h⟩ := Option.bind_eq_some_iff.mp h
  cases h
  have hbuild : ∀ text ∈ st.goBuild, Constraint.isGoBuildLine text = true := by
    refine LeadingLines.keeps_read? (P := fun st => ∀ text ∈ st.goBuild, Constraint.isGoBuildLine text = true)
      (fun st hst => hst) (fun st _ _ _ hst => hst) (fun st st' line _ hst hnote => ?_) (fun st _ hst => hst) (by simp) hst
    rcases LeadingLines.note?_eq_some hnote with ⟨hline, rfl⟩ | rfl | rfl
    · intro text htext
      rwa [← Option.some.inj htext]
    · exact hst
    · exact hst
  constructor
  · intro text htext
    have hsome : st.goBuild.isSome = true := Option.isSome_iff_exists.mpr ⟨text, htext⟩
    exact ⟨hbuild text htext, by simp [hsome]⟩
  · simp only
    split
    · simp
    · intro line hline
      exact (List.mem_filter.mp hline).2

/-! ## Text on the first line -/

theorem head_of_isGoBuildLine {line : List Char} (h : Constraint.isGoBuildLine line = true) : line.head? = some '/' := by
  obtain ⟨s, hs⟩ := Option.isSome_iff_exists.mp h
  obtain ⟨one, hone, hs⟩ := Option.bind_eq_some_iff.mp hs
  obtain ⟨rest, hrest, -⟩ := Option.bind_eq_some_iff.mp hs
  have hslash : one.head? = some '/' := by
    rw [← append_of_isPrefixOf? hrest]
    rfl
  have hpart : one <+: line := by
    unfold Constraint.singleLine? at hone
    extract_lets line' at hone
    have hline' : line' <+: line := by
      simp only [line']
      split
      · rename_i more hreverse
        rw [← List.reverse_reverse line, hreverse, List.reverse_cons]
        exact List.prefix_append _ _
      · exact List.prefix_refl _
    split at hone
    · cases hone
    · rwa [← Option.some.inj hone]
  obtain ⟨more, rfl⟩ := hpart
  rw [List.head?_append, hslash]
  rfl

theorem exists_byteLines {b : UInt8} (hb : b ≠ 0x0A) (content : List UInt8) :
    ∃ line lines, byteLines (b :: content) = (b :: line) :: lines := by
  obtain ⟨line, lines, hlines⟩ := List.exists_cons_of_ne_nil (List.splitOnP_ne_nil (· == 0x0A) content)
  have hsplit : (b :: content).splitOnP (· == 0x0A) = (b :: line) :: lines := by
    rw [List.splitOnP_cons_eq_if_modifyHead, if_neg (by simpa using hb), hlines]
    rfl
  unfold byteLines
  simp only [hsplit]
  split
  · rename_i hlast
    cases lines with
    | nil => simp at hlast
    | cons next more => exact ⟨line, (next :: more).dropLast, rfl⟩
  · exact ⟨line, lines, rfl⟩

theorem exists_trim {p : UInt8 → Bool} {b : UInt8} (hb : p b = false) (line : List UInt8) : ∃ rest, trim p (b :: line) = b :: rest := by
  have hstart : trimStart p (b :: line) = b :: line := by simp [trimStart, hb]
  have hpart := trimEnd_isPrefix p (b :: line)
  rw [trim, hstart]
  cases hend : trimEnd p (b :: line) with
  | nil =>
    have hdrop : (b :: line).reverse.dropWhile p = [] := List.reverse_eq_nil_iff.mp hend
    rw [List.reverse_cons, List.dropWhile_append] at hdrop
    split at hdrop
    · simp [hb] at hdrop
    · simp at hdrop
  | cons a rest =>
    rw [hend] at hpart
    exact ⟨rest, by rw [(List.cons_prefix_cons.mp hpart).1]⟩

/-- Leading lines end at once where a letter begins the content. -/
theorem exists_leading? (content : List UInt8) : ∃ l, leading? (0x70 :: content) = some l := by
  obtain ⟨line, lines, hlines⟩ := exists_byteLines (b := 0x70) (by decide) content
  obtain ⟨rest, hrest⟩ := exists_trim (p := isBlankByte) (b := 0x70) (by decide) line
  have hlossy : Utf8.lossy (0x70 :: rest) = 'p' :: Utf8.lossy rest := by
    rw [Utf8.lossy]
    rfl
  have hnote (st : LeadingLines) : st.note? (0x70 :: rest) = some st := by
    have hbuild : Constraint.isGoBuildLine ('p' :: Utf8.lossy rest) ≠ true := by
      intro h
      have := head_of_isGoBuildLine h
      cases this
    have hbinary : 'p' :: Utf8.lossy rest ≠ "//go:binary-only-package".toList := by
      intro h
      have hhead : some 'p' = some '/' := congrArg List.head? h
      cases hhead
    simp only [LeadingLines.note?, hlossy, if_neg hbuild, if_neg hbinary]
  have hends : endsInside? false (0x70 :: rest) = none := by
    rw [endsInside?]
    rfl
  unfold leading?
  rw [hlines, LeadingLines.read?, hrest]
  simp [hnote, hends]

end PackageIndex.Source
