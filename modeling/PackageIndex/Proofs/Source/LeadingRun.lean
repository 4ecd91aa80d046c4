/-
  PackageIndex.Proofs.Source.LeadingRun — which lines of a file declare its constraints.

  The leading run goes up to the first line that holds text outside comments, which is told
  byte by byte here (`commentsEnd?`). The `//go:build` line and the mark of a binary-only
  package are looked for where a line of the run begins outside block comments; `+build`
  lines, above the last blank line among the lines at the top that are blank or begin with `//`.

  - `endsInside?_trim`: a line that is cut and trimmed piece by piece tells the same as its bytes.
  - `declared?_of_read?`, `block_of_read?`: what a reading makes of the run and of the top.
  - `leading?_eq`: the constraints of a content.
  - `leading?_congr`, `leading?_append`: they hang on the run alone, so not on what follows it.
  - `scan_constraints`: the same of the header of a file.
-/

import PackageIndex.Proofs.Source.Leading
import PackageIndex.Source.Header

namespace PackageIndex.Source

/-! ## The run -/

/-- Reads a line that begins inside a block comment, or outside: whether it ends inside one; `none` if it
holds text outside comments. -/
def commentsEnd? : (inside : Bool) → List UInt8 → Option Bool
  | inside, [] => some inside
  | true, 0x2A :: 0x2F :: s => commentsEnd? false s
  | true, _ :: s => commentsEnd? true s
  | false, 0x2F :: 0x2F :: _ => some false
  | false, 0x2F :: 0x2A :: s => commentsEnd? true s
  | false, b :: s => if isBlankByte b then commentsEnd? false s else none

/-- The lines up to the first one that holds text outside comments and with it, each with whether it begins
inside a block comment. -/
def leadingRun (inside : Bool) : List (List UInt8) → List (Bool × List UInt8)
  | [] => []
  | line :: lines =>
    (inside, line) :: match commentsEnd? inside line with
      | none => []
      | some inside' => leadingRun inside' lines

def runOf (content : List UInt8) : List (Bool × List UInt8) := leadingRun false (byteLines content)

/-- The run of the content ends in a line that holds text. -/
def EndsInText (content : List UInt8) : Prop := ∃ l ∈ (runOf content).getLast?, commentsEnd? l.1 l.2 = none

def outsideTexts (run : List (Bool × List UInt8)) : List (List Char) :=
  (run.filter (!·.1)).map fun l => Utf8.lossy (trim isBlankByte l.2)

def goBuildTexts (content : List UInt8) : List (List Char) :=
  (outsideTexts (runOf content)).filter Constraint.isGoBuildLine

def binaryOnlyMark : List Char := "//go:binary-only-package".toList

def isTopLine (line : List UInt8) : Bool := line.isEmpty || slashSlash.isPrefixOf line

/-- Of the lines up to the first one that is neither blank nor begins with `//`, those above the last blank
one that begin with `//`; lines that are trimmed. -/
def topBlock (lines : List (List UInt8)) : List (List UInt8) :=
  (trimEnd (!·.isEmpty) (lines.takeWhile isTopLine)).filter slashSlash.isPrefixOf

def plusBuildTexts (content : List UInt8) : List (List Char) :=
  ((topBlock ((byteLines content).map (trim isBlankByte))).map Utf8.lossy).filter Constraint.isPlusBuildLine

/-! ## One line -/

theorem not_blank_marks : isBlankByte 0x2A = false ∧ isBlankByte 0x2F = false := by decide

theorem commentsEnd?_blank {b : UInt8} (hb : isBlankByte b = true) (inside : Bool) (s : List UInt8) :
    commentsEnd? inside (b :: s) = commentsEnd? inside s := by
  have hstar : b ≠ 0x2A := by
    rintro rfl
    rw [not_blank_marks.1] at hb
    cases hb
  have hslash : b ≠ 0x2F := by
    rintro rfl
    rw [not_blank_marks.2] at hb
    cases hb
  cases inside with
  | true =>
    rw [commentsEnd?]
    exact fun _ h _ => hstar h
  | false =>
    rw [commentsEnd?, if_pos hb]
    · exact fun _ h _ => hslash h
    · exact fun _ h _ => hslash h

theorem commentsEnd?_blanks {s : List UInt8} (hs : ∀ b ∈ s, isBlankByte b = true) (inside : Bool) :
    commentsEnd? inside s = some inside := by
  induction s with
  | nil => cases inside <;> rw [commentsEnd?]
  | cons b s ih =>
    obtain ⟨hb, hs⟩ := List.forall_mem_cons.mp hs
    rw [commentsEnd?_blank hb, ih hs]

theorem commentsEnd?_trimStart (inside : Bool) (s : List UInt8) :
    commentsEnd? inside (trimStart isBlankByte s) = commentsEnd? inside s := by
  induction s with
  | nil => rfl
  | cons b s ih =>
    by_cases hb : isBlankByte b = true
    · rw [commentsEnd?_blank hb, ← ih, trimStart, List.dropWhile_cons_of_pos hb]
      rfl
    · rw [trimStart, List.dropWhile_cons_of_neg hb]

theorem commentsEnd?_append_blanks {blanks : List UInt8} (hblanks : ∀ b ∈ blanks, isBlankByte b = true) (inside : Bool)
    (s : List UInt8) : commentsEnd? inside (s ++ blanks) = commentsEnd? inside s := by
  fun_induction commentsEnd? inside s with
  | case1 inside => exact commentsEnd?_blanks hblanks inside
  | case2 s ih => rw [List.cons_append, List.cons_append, commentsEnd?, ih]
  | case3 b s hclose ih =>
    rw [List.cons_append, commentsEnd?, ih]
    intro rest hb hrest
    cases s with
    | nil =>
      have := hblanks 0x2F (by simp [show blanks = _ from hrest])
      rw [not_blank_marks.2] at this
      cases this
    | cons c s =>
      obtain ⟨hc, -⟩ := List.cons.inj hrest
      exact hclose s hb (by rw [hc])
  | case4 s => rw [List.cons_append, List.cons_append, commentsEnd?]
  | case5 s ih => rw [List.cons_append, List.cons_append, commentsEnd?, ih]
  | case6 b s hline hopen hb ih => rw [List.cons_append, commentsEnd?_blank hb, ih]
  | case7 b s hline hopen hb =>
    have hnext (c : UInt8) (hc : isBlankByte c = false) (hs : ∀ t, b = 0x2F → s = c :: t → False) :
        ∀ t, b = 0x2F → s ++ blanks = c :: t → False := by
      intro t hslash ht
      cases s with
      | nil =>
        have := hblanks c (by simp [show blanks = _ from ht])
        rw [hc] at this
        cases this
      | cons d s =>
        obtain ⟨hd, -⟩ := List.cons.inj ht
        exact hs s hslash (by rw [hd])
    rw [List.cons_append, commentsEnd?, if_neg hb]
    · exact hnext 0x2F not_blank_marks.2 hline
    · exact hnext 0x2A not_blank_marks.1 hopen

theorem commentsEnd?_trim (inside : Bool) (s : List UInt8) :
    commentsEnd? inside (trim isBlankByte s) = commentsEnd? inside s := by
  obtain ⟨blanks, hblanks, hs⟩ := exists_eq_trimEnd_append isBlankByte (trimStart isBlankByte s)
  rw [← commentsEnd?_trimStart inside s, hs, commentsEnd?_append_blanks hblanks]
  rfl

/-- A block comment goes up to the first mark that closes it. -/
theorem commentsEnd?_inside (s : List UInt8) : commentsEnd? true s =
    match cutAt? starSlash s with
    | none => some true
    | some (_, rest) => commentsEnd? false rest := by
  induction s with
  | nil => rfl
  | cons b s ih =>
    by_cases hclose : ∃ rest, b :: s = starSlash ++ rest
    · obtain ⟨rest, hrest⟩ := hclose
      have hcut : cutAt? starSlash (b :: s) = some ([], rest) := by
        rw [hrest]
        exact cutAt?_append (l := []) List.not_mem_nil _ rest
      rw [hcut, hrest]
      rfl
    · have hmiss : starSlash.isPrefixOf? (b :: s) = none := by
        cases h : starSlash.isPrefixOf? (b :: s) with
        | none => rfl
        | some rest => exact absurd ⟨rest, (append_of_isPrefixOf? h).symm⟩ hclose
      rw [commentsEnd?, ih, cutAt?, hmiss]
      · cases cutAt? starSlash s <;> rfl
      · rintro rest rfl rfl
        exact hclose ⟨rest, rfl⟩

/-- A line that is cut and trimmed piece by piece tells the same as its bytes. -/
theorem endsInside?_eq {inside : Bool} {line : List UInt8} (h : inside = false → ∀ b ∈ line.head?, isBlankByte b = false) :
    endsInside? inside line = commentsEnd? inside line := by
  fun_induction endsInside? inside line with
  | case1 inside => cases inside <;> rfl
  | case2 line hne hcut => rw [commentsEnd?_inside, hcut]
  | case3 line hne before rest hcut ih => rw [commentsEnd?_inside, hcut, ih fun _ b hb => not_of_head?_trim hb, commentsEnd?_trim]
  | case4 inside line hne hinside hslashes =>
    rw [Bool.not_eq_true] at hinside
    obtain ⟨rest, rfl⟩ := List.isPrefixOf_iff_prefix.mp hslashes
    rw [hinside]
    rfl
  | case5 inside line hne hinside hslashes hopen =>
    rw [Bool.not_eq_true] at hinside
    cases line with
    | nil => exact absurd rfl hne
    | cons b s =>
      have hb : ¬ isBlankByte b = true := by simp [h hinside b rfl]
      rw [hinside, commentsEnd?, if_neg hb]
      · rintro rest rfl rfl
        exact hslashes rfl
      · rintro rest rfl rfl
        cases hopen
  | case6 inside line hne hinside hslashes rest hopen ih =>
    rw [Bool.not_eq_true] at hinside
    rw [ih nofun, commentsEnd?_trim, ← append_of_isPrefixOf? hopen, hinside]
    rfl

theorem endsInside?_trim (inside : Bool) (line : List UInt8) :
    endsInside? inside (trim isBlankByte line) = commentsEnd? inside line := by
  rw [endsInside?_eq fun _ b hb => not_of_head?_trim hb, commentsEnd?_trim]

/-! ## What a reading makes of the run -/

/-- What texts declare beside a `//go:build` line and a mark that were read before them. -/
def declared? (goBuild : Option (List Char)) (binaryOnly : Bool) (texts : List (List Char)) :
    Option (Option (List Char) × Bool) :=
  let builds := goBuild.toList ++ texts.filter Constraint.isGoBuildLine
  if 2 ≤ builds.length then none else some (builds.head?, binaryOnly || texts.contains binaryOnlyMark)

theorem not_isGoBuildLine_mark : Constraint.isGoBuildLine binaryOnlyMark = false := by decide

theorem declared?_note? (st : LeadingLines) (line : List UInt8) (texts : List (List Char)) :
    ((st.note? line).bind fun st' => declared? st'.goBuild st'.binaryOnly texts) =
      declared? st.goBuild st.binaryOnly (Utf8.lossy line :: texts) := by
  unfold LeadingLines.note?
  simp only
  split
  · rename_i hbuild
    have hmark : ¬ binaryOnlyMark = Utf8.lossy line := by
      intro hmark
      rw [← hmark, not_isGoBuildLine_mark] at hbuild
      cases hbuild
    cases hgo : st.goBuild with
    | none =>
      have hlength (n : Nat) : 2 ≤ 1 + n ↔ 1 ≤ n := by omega
      simp [declared?, hbuild, hmark, hlength]
    | some build => simp [declared?, hbuild]
  · rename_i hbuild
    split
    · rename_i hmark
      simp [declared?, hbuild, show binaryOnlyMark = Utf8.lossy line from hmark.symm]
    · rename_i hmark
      simp [declared?, hbuild, show ¬ binaryOnlyMark = Utf8.lossy line from fun h => hmark h.symm]

/-- Noting a line leaves all else as it was. -/
theorem kept_of_note? {st st' : LeadingLines} {line : List UInt8} (h : st.note? line = some st') :
    st'.inside = st.inside ∧ st'.mixed = st.mixed ∧ st'.pending = st.pending ∧ st'.block = st.block := by
  rcases LeadingLines.note?_eq_some h with ⟨-, rfl⟩ | rfl | rfl <;> exact ⟨rfl, rfl, rfl, rfl⟩

/-- The state after a line that is not skipped was added, before it is noted. -/
def taken (st : LeadingLines) (line : List UInt8) : LeadingLines :=
  { st with mixed := st.mixed || !slashSlash.isPrefixOf line, pending := st.pending ++ [line] }

theorem read?_cons (st : LeadingLines) (line : List UInt8) (lines : List (List UInt8)) : st.read? (line :: lines) =
    if trim isBlankByte line = [] ∧ ¬ st.mixed then
      LeadingLines.read? { st with block := st.block ++ st.pending, pending := [] } lines
    else
      (if st.inside then some (taken st (trim isBlankByte line)) else (taken st (trim isBlankByte line)).note? (trim isBlankByte line)).bind
        fun noted => match commentsEnd? st.inside line with
          | some inside => LeadingLines.read? { noted with inside } lines
          | none => some noted := by
  have hread (noted : Option LeadingLines) (hnoted : ∀ st' ∈ noted, st'.inside = st.inside) :
      (noted.bind fun st' => match endsInside? st'.inside (trim isBlankByte line) with
        | some inside => LeadingLines.read? { st' with inside } lines
        | none => some st') =
      noted.bind fun st' => match commentsEnd? st.inside line with
        | some inside => LeadingLines.read? { st' with inside } lines
        | none => some st' := by
    cases noted with
    | none => rfl
    | some st' =>
      simp only [Option.bind_some, endsInside?_trim]
      rw [hnoted st' rfl]
  rw [LeadingLines.read?, ← hread]
  · simp only
    split
    · rfl
    · split <;> rfl
  · intro st' hst'
    split at hst'
    · cases hst'
      rfl
    · exact (kept_of_note? hst').1

theorem commentsEnd?_of_trim_eq_nil {line : List UInt8} (h : trim isBlankByte line = []) (inside : Bool) :
    commentsEnd? inside line = some inside := by
  rw [← commentsEnd?_trim, h]
  cases inside <;> rfl

theorem outsideTexts_cons (inside : Bool) (line : List UInt8) (run : List (Bool × List UInt8)) :
    outsideTexts ((inside, line) :: run) =
      if inside then outsideTexts run else Utf8.lossy (trim isBlankByte line) :: outsideTexts run := by
  cases inside <;> rfl

theorem declared?_nil (goBuild : Option (List Char)) (binaryOnly : Bool) :
    declared? goBuild binaryOnly [] = some (goBuild, binaryOnly) := by
  cases goBuild <;> simp [declared?]

theorem declared?_blank (goBuild : Option (List Char)) (binaryOnly : Bool) (texts : List (List Char)) :
    declared? goBuild binaryOnly ([] :: texts) = declared? goBuild binaryOnly texts := by
  have hblank : Constraint.isGoBuildLine [] = false ∧ binaryOnlyMark ≠ [] := by decide
  simp [declared?, hblank]

def told (st : LeadingLines) : Option (List Char) × Bool := (st.goBuild, st.binaryOnly)

/-- What is declared by a line, and by all that is read after it. -/
theorem declared?_bind {st : LeadingLines} {line : List UInt8} {next : LeadingLines → Option LeadingLines}
    {texts : List (List Char)}
    (hnext : ∀ noted, (next noted).map told = declared? noted.goBuild noted.binaryOnly texts) :
    ((if st.inside then some (taken st line) else (taken st line).note? line).bind next).map told =
      declared? st.goBuild st.binaryOnly (if st.inside then texts else Utf8.lossy line :: texts) := by
  rw [Option.map_bind, show Option.map told ∘ next = fun noted => declared? noted.goBuild noted.binaryOnly texts from funext hnext]
  split
  · rfl
  · exact declared?_note? (taken st line) line texts

theorem declared?_of_read? (st : LeadingLines) (lines : List (List UInt8)) :
    (st.read? lines).map told = declared? st.goBuild st.binaryOnly (outsideTexts (leadingRun st.inside lines)) := by
  induction lines generalizing st with
  | nil => exact (declared?_nil st.goBuild st.binaryOnly).symm
  | cons line lines ih =>
    rw [read?_cons, leadingRun, outsideTexts_cons]
    split
    · rename_i hblank
      have hlossy : Utf8.lossy [] = [] := by rw [Utf8.lossy]
      rw [ih, commentsEnd?_of_trim_eq_nil hblank.1, hblank.1, hlossy]
      simp only
      split
      · rfl
      · exact (declared?_blank _ _ _).symm
    · refine declared?_bind fun noted => ?_
      cases commentsEnd? st.inside line with
      | none => exact (declared?_nil _ _).symm
      | some inside => exact ih { noted with inside }

/-! ## What a reading makes of the top -/

theorem commentsEnd?_slashes {line : List UInt8} (h : slashSlash.isPrefixOf (trim isBlankByte line) = true) :
    commentsEnd? false line = some false := by
  obtain ⟨rest, hrest⟩ := List.isPrefixOf_iff_prefix.mp h
  rw [← commentsEnd?_trim, ← hrest]
  rfl

theorem trimEnd_nonblank {lines : List (List UInt8)} (h : ∀ l ∈ lines, l ≠ []) :
    trimEnd (!·.isEmpty) lines = [] := by
  refine trimEnd_eq_nil fun l hl => ?_
  simpa using h l hl

theorem block_of_read? {st st' : LeadingLines} {lines : List (List UInt8)} (h : st.read? lines = some st') :
    (st.mixed = true → st'.block = st.block) ∧
      (st.mixed = false → st.inside = false → (∀ l ∈ st.pending, slashSlash.isPrefixOf l = true) →
        st'.block = st.block ++ (trimEnd (!·.isEmpty)
          (st.pending ++ (lines.map (trim isBlankByte)).takeWhile isTopLine)).filter slashSlash.isPrefixOf) := by
  have hne {pending : List (List UInt8)} (hpending : ∀ l ∈ pending, slashSlash.isPrefixOf l = true) : ∀ l ∈ pending, l ≠ [] := by
    rintro l hl rfl
    cases hpending [] hl
  induction lines generalizing st with
  | nil =>
    cases h
    refine ⟨fun _ => rfl, fun _ _ hpending => ?_⟩
    simp [trimEnd_nonblank (hne hpending)]
  | cons line lines ih =>
    rw [read?_cons] at h
    split at h
    · rename_i hblank
      refine ⟨fun hmixed => absurd hmixed hblank.2, fun hmixed hinside hpending => ?_⟩
      rw [(ih h).2 hmixed hinside (by simp), List.map_cons, hblank.1, List.takeWhile_cons_of_pos rfl, trimEnd_append_cons rfl,
        List.filter_append, List.filter_cons_of_neg (by decide), List.filter_eq_self.mpr hpending]
      simp
    · rename_i hskip
      obtain ⟨noted, hnoted, h⟩ := Option.bind_eq_some_iff.mp h
      have hkept : noted.mixed = (st.mixed || !slashSlash.isPrefixOf (trim isBlankByte line)) ∧
          noted.pending = st.pending ++ [trim isBlankByte line] ∧ noted.block = st.block := by
        split at hnoted
        · cases hnoted
          exact ⟨rfl, rfl, rfl⟩
        · exact (kept_of_note? hnoted).2
      obtain ⟨hmixed', hpending', hblock'⟩ := hkept
      constructor
      · intro hmixed
        split at h
        · rw [(ih h).1 (by simp [hmixed', hmixed]), hblock']
        · cases h
          exact hblock'
      · intro hmixed hinside hpending
        have hline : trim isBlankByte line ≠ [] := fun hnil => hskip ⟨hnil, by simp [hmixed]⟩
        by_cases hslash : slashSlash.isPrefixOf (trim isBlankByte line) = true
        · rw [hinside, commentsEnd?_slashes hslash] at h
          have hmore : ∀ l ∈ noted.pending, slashSlash.isPrefixOf l = true := by
            rw [hpending']
            exact List.forall_mem_append.mpr ⟨hpending, by simpa using hslash⟩
          rw [(ih h).2 (by simp [hmixed', hmixed, hslash]) rfl hmore, hblock', hpending', List.map_cons,
            List.takeWhile_cons_of_pos (by simp [isTopLine, hslash]), List.append_assoc]
          rfl
        · -- the top ends here, with no blank line since the pending ones
          have htop : ((line :: lines).map (trim isBlankByte)).takeWhile isTopLine = [] := by
            rw [List.map_cons, List.takeWhile_cons_of_neg (by simp [isTopLine, hslash, hline])]
          rw [htop, List.append_nil, trimEnd_nonblank (hne hpending)]
          split at h
          · rw [(ih h).1 (by simp [hmixed', hslash]), hblock']
            simp
          · cases h
            simpa using hblock'

/-! ## The constraints -/

/-- The constraints that a content declares. -/
theorem leading?_eq (content : List UInt8) : leading? content =
    if 2 ≤ (goBuildTexts content).length then none
    else some {
      goBuild := (goBuildTexts content).head?
      binaryOnly := (outsideTexts (runOf content)).contains binaryOnlyMark
      plusBuild := if goBuildTexts content = [] then plusBuildTexts content else [] } := by
  have htold : (LeadingLines.read? {} (byteLines content)).map told = if 2 ≤ (goBuildTexts content).length then none
      else some ((goBuildTexts content).head?, (outsideTexts (runOf content)).contains binaryOnlyMark) :=
    declared?_of_read? {} (byteLines content)
  unfold leading?
  cases hread : LeadingLines.read? {} (byteLines content) with
  | none =>
    rw [hread] at htold
    split at htold
    · rename_i htwo
      rw [if_pos htwo]
      rfl
    · cases htold
  | some st =>
    rw [hread] at htold
    split at htold
    · cases htold
    · rename_i hone
      obtain ⟨hbuild, hbinary⟩ := Prod.mk.inj (Option.some.inj htold)
      have hblock : st.block = topBlock ((byteLines content).map (trim isBlankByte)) := by
        simpa [topBlock] using (block_of_read? hread).2 rfl rfl (by simp)
      have hnone : st.goBuild.isSome = true ↔ ¬ goBuildTexts content = [] := by
        rw [hbuild, List.isSome_head?]
      have hplus : (if st.goBuild.isSome then [] else (st.block.map Utf8.lossy).filter Constraint.isPlusBuildLine) =
          if goBuildTexts content = [] then plusBuildTexts content else [] := by
        rw [hblock, if_congr hnone rfl rfl, ite_not]
        rfl
      rw [if_neg hone, ← hbuild, ← hbinary, ← hplus]
      rfl

/-- The lines at the top are lines of the run. -/
theorem takeWhile_leadingRun (lines : List (List UInt8)) :
    ((leadingRun false lines).map fun l => trim isBlankByte l.2).takeWhile isTopLine =
      (lines.map (trim isBlankByte)).takeWhile isTopLine := by
  induction lines with
  | nil => rfl
  | cons line lines ih =>
    rw [leadingRun, List.map_cons, List.map_cons]
    by_cases htop : isTopLine (trim isBlankByte line) = true
    · have hend : commentsEnd? false line = some false := by
        rcases Bool.or_eq_true_iff.mp htop with hblank | hslash
        · exact commentsEnd?_of_trim_eq_nil (List.isEmpty_iff.mp hblank) false
        · exact commentsEnd?_slashes hslash
      rw [hend, List.takeWhile_cons_of_pos htop, List.takeWhile_cons_of_pos htop, ih]
    · rw [List.takeWhile_cons_of_neg htop, List.takeWhile_cons_of_neg htop]

/-- The constraints of a content hang on its run alone. -/
theorem leading?_congr {content content' : List UInt8} (h : runOf content' = runOf content) :
    leading? content' = leading? content := by
  have hplus : plusBuildTexts content' = plusBuildTexts content := by
    unfold plusBuildTexts topBlock
    rw [← takeWhile_leadingRun, ← takeWhile_leadingRun, ← runOf, ← runOf, h]
  rw [leading?_eq, leading?_eq, hplus]
  unfold goBuildTexts
  rw [h]

/-! ## What follows the run -/

theorem leadingRun_append {inside : Bool} {lines : List (List UInt8)}
    (h : ∃ l ∈ leadingRun inside lines, commentsEnd? l.1 l.2 = none) (more : List (List UInt8)) :
    leadingRun inside (lines ++ more) = leadingRun inside lines := by
  induction lines generalizing inside with
  | nil =>
    obtain ⟨l, hl, -⟩ := h
    cases hl
  | cons line lines ih =>
    rw [leadingRun] at h
    rw [List.cons_append, leadingRun, leadingRun]
    cases hend : commentsEnd? inside line with
    | none => rfl
    | some inside' =>
      obtain ⟨l, hl, htext⟩ := h
      rcases List.mem_cons.mp hl with rfl | hl
      · cases htext.symm.trans hend
      · rw [hend] at hl
        simp only [ih ⟨l, hl, htext⟩]

theorem byteLines_append (content rest : List UInt8) : ∃ more, byteLines (content ++ 0x0A :: rest) = byteLines content ++ more := by
  have hsplit : (content ++ 0x0A :: rest).splitOnP (· == 0x0A) =
      content.splitOnP (· == 0x0A) ++ rest.splitOnP (· == 0x0A) := List.splitOnP_append_cons content rest rfl
  obtain ⟨cut, hcut⟩ : ∃ cut, content.splitOnP (· == 0x0A) = byteLines content ++ cut := by
    unfold byteLines
    simp only
    split
    · exact ⟨_, (List.dropLast_append_getLast (List.splitOnP_ne_nil _ _)).symm⟩
    · exact ⟨[], (List.append_nil _).symm⟩
  have hne := List.splitOnP_ne_nil (· == 0x0A) rest
  rw [byteLines]
  simp only [hsplit, hcut, List.append_assoc]
  split
  · rw [List.dropLast_append_of_ne_nil (by simp [hne])]
    exact ⟨_, rfl⟩
  · exact ⟨_, rfl⟩

/-- Where a line of text ends the run, it does not matter what stands below. -/
theorem leading?_append {content : List UInt8} (h : EndsInText content) (rest : List UInt8) :
    leading? (content ++ 0x0A :: rest) = leading? content := by
  obtain ⟨l, hl, htext⟩ := h
  obtain ⟨more, hmore⟩ := byteLines_append content rest
  refine leading?_congr ?_
  rw [runOf, hmore]
  exact leadingRun_append ⟨l, List.mem_of_getLast? hl, htext⟩ more

/-! ## The header -/

def Header.constraints (h : Header) : String × List String × Bool := (h.goBuild, h.plusBuild, h.binaryOnly)

/-- The constraints of a header are those of the leading lines, whatever else the file holds. -/
theorem map_constraints_scan (name path : String) (content : List UInt8) :
    (Header.scan name path content).map Header.constraints = match leading? content with
      | none => .error ⟨name⟩
      | some l => .ok (String.ofList (l.goBuild.getD []), l.plusBuild.map String.ofList, l.binaryOnly) := by
  unfold Header.scan
  cases leading? content with
  | none => rfl
  | some l =>
    simp only
    split
    · rfl
    · split <;> rfl

theorem scan_constraints (name path : String) (content : List UInt8) :
    ((∃ e, Header.scan name path content = .error e) ↔ 2 ≤ (goBuildTexts content).length) ∧
      (∀ h, Header.scan name path content = .ok h →
        h.goBuild = String.ofList ((goBuildTexts content).head?.getD []) ∧
          h.plusBuild = (if goBuildTexts content = [] then (plusBuildTexts content).map String.ofList else []) ∧
          (h.binaryOnly = true ↔ binaryOnlyMark ∈ outsideTexts (runOf content))) ∧
      (∀ content', runOf content' = runOf content →
        (Header.scan name path content').map Header.constraints = (Header.scan name path content).map Header.constraints) ∧
      ∀ rest, EndsInText content →
        (Header.scan name path (content ++ 0x0A :: rest)).map Header.constraints =
          (Header.scan name path content).map Header.constraints := by
  have hscan := map_constraints_scan name path content
  rw [leading?_eq] at hscan
  refine ⟨?_, ?_, fun content' h => ?_, fun rest h => ?_⟩
  · constructor
    · rintro ⟨e, he⟩
      rw [he] at hscan
      split at hscan
      · rename_i hnone
        split at hnone
        · assumption
        · cases hnone
      · cases hscan
    · intro htwo
      rw [if_pos htwo] at hscan
      cases hread : Header.scan name path content with
      | error e => exact ⟨e, rfl⟩
      | ok h =>
        rw [hread] at hscan
        cases hscan
  · intro h hh
    rw [hh] at hscan
    split at hscan
    · cases hscan
    · rename_i l hl
      split at hl
      · cases hl
      · cases hl
        obtain ⟨hgo, hplus, hbinary⟩ : h.goBuild = _ ∧ h.plusBuild = _ ∧ h.binaryOnly = _ := by
          simpa [Header.constraints, Except.map] using hscan
        refine ⟨hgo, ?_, ?_⟩
        · rw [hplus]
          split <;> rfl
        · rw [hbinary]
          simp
  · rw [map_constraints_scan, map_constraints_scan, leading?_congr h]
  · rw [map_constraints_scan, map_constraints_scan, leading?_append h]

/-- Comments of both kinds above a line of text. Inside the block comment a `//go:build` line is none, and
below it a `+build` line is none; the mark is one anywhere outside it. -/
def mixedLines : List UInt8 := Utf8.ofString
  "// +build a\n\n/* x\n//go:build no\n*/ // y\n//go:binary-only-package\n// +build b\n\npackage p"

def otherBuildLines : List UInt8 := Utf8.ofString "//go:build a\n//go:build b\n"

theorem mixedLines_constraints : ∃ h, Header.scan "a.go" "m/a.go" mixedLines = .ok h ∧
    h.goBuild = "" ∧ h.plusBuild = ["// +build a"] ∧ h.binaryOnly = true ∧
    runOf (mixedLines ++ [0x0A]) = runOf mixedLines ∧
    (Header.scan "a.go" "m/a.go" (mixedLines ++ [0x0A])).map Header.constraints = .ok h.constraints ∧
    EndsInText mixedLines ∧
    (Header.scan "a.go" "m/a.go" (mixedLines ++ 0x0A :: otherBuildLines)).map Header.constraints = .ok h.constraints := by
  obtain ⟨-, hok, hrun, hrest⟩ := scan_constraints "a.go" "m/a.go" mixedLines
  have hscan : Header.scan "a.go" "m/a.go" mixedLines = .ok
      { packageName := "p", plusBuild := ["// +build a"], binaryOnly := true } := by decide +kernel
  have hsame : runOf (mixedLines ++ [0x0A]) = runOf mixedLines := by decide +kernel
  have htext : EndsInText mixedLines := ⟨(false, Utf8.ofString "package p"), by decide +kernel, by decide +kernel⟩
  have hcontent := hrun _ hsame
  have hbelow := hrest otherBuildLines htext
  rw [hscan] at hcontent hbelow
  obtain ⟨hgo, hplus, hbinary⟩ := hok _ hscan
  refine ⟨_, hscan, hgo.trans (by decide +kernel), hplus.trans (by decide +kernel), hbinary.mpr (by decide +kernel), hsame,
    hcontent, htext, hbelow⟩

end PackageIndex.Source
