/-
  PackageIndex.Proofs.Source.Synopsis — a synopsis is one sentence in normal form.

  Where a sentence ends is told by the three characters before a space. Collapsing white space and
  curling quotes replace characters, but before a full stop they leave capitals where there were
  capitals and none where there were none (`Alike`). So a sentence has no end inside it afterwards
  either, and what is in normal form stays as it is.

  - `isSentence_collapse`, `isSentence_curlyQuotes`: a sentence is one afterwards.
  - `singleSpaced_joinWords`, `not_isInfix_curlyQuotes`: what else the normal form asks for.
  - `mem_synopsis`: what a synopsis is made of.
  - `synopsis_normal`: a synopsis is in normal form, and which texts are their own synopsis.
-/

import PackageIndex.Proofs.Text.Parts
import PackageIndex.Source.Synopsis

namespace PackageIndex.Source

/-! ## Words -/

def joinWords (ws : List (List Char)) : List Char := (ws.intersperse [' ']).flatten

def IsWord (w : List Char) : Prop := w ≠ [] ∧ ∀ c ∈ w, isBlank c = false

variable {s t w : List Char} {ws : List (List Char)} {c d : Char}

theorem words_append_blank (hc : isBlank c = true) (s t : List Char) : words (s ++ c :: t) = words s ++ words t := by
  simp only [words, List.splitOnP_append_cons s t hc, List.filter_append]

theorem words_blank (hc : isBlank c = true) (s : List Char) : words (c :: s) = words s := words_append_blank hc [] s

theorem words_of_isWord (h : IsWord w) : words w = [w] := by
  simp [words, List.splitOnP_eq_singleton h.2, h.1]

theorem isWord_of_mem_words (h : w ∈ words s) : IsWord w := by
  obtain ⟨hw, hne⟩ := List.mem_filter.mp h
  exact ⟨by simpa using hne, not_of_mem_splitOnP hw⟩

/-- A character that goes on into a word is put before the first word. -/
theorem words_cons_cons (hc : isBlank c = false) (hd : isBlank d = false) (s : List Char) :
    words (c :: d :: s) = (words (d :: s)).modifyHead (c :: ·) := by
  obtain ⟨piece, pieces, hpieces⟩ := List.exists_cons_of_ne_nil (List.splitOnP_ne_nil isBlank s)
  simp [words, List.splitOnP_cons_eq_if_modifyHead, hc, hd, hpieces]

theorem joinWords_cons (w : List Char) (h : ws ≠ []) : joinWords (w :: ws) = w ++ ' ' :: joinWords ws := by
  rcases ws with _ | ⟨w', ws⟩
  · exact absurd rfl h
  · simp [joinWords]

theorem joinWords_modifyHead (h : ws ≠ []) (c : Char) : joinWords (ws.modifyHead (c :: ·)) = c :: joinWords ws := by
  rcases ws with _ | ⟨w, _ | ⟨w', ws⟩⟩
  · exact absurd rfl h
  · simp [joinWords]
  · simp [joinWords]

theorem joinWords_eq_nil (h : ∀ w ∈ ws, IsWord w) : joinWords ws = [] ↔ ws = [] := by
  rcases ws with _ | ⟨w, _ | ⟨w', ws⟩⟩
  · simp [joinWords]
  · simpa [joinWords] using (h w List.mem_cons_self).1
  · simp [joinWords]

theorem mem_joinWords (h : c ∈ joinWords ws) : c = ' ' ∨ ∃ w ∈ ws, c ∈ w :=
  (mem_of_mem_intercalate h).imp_left List.mem_singleton.mp

/-! ## Collapsed white space -/

def collapse (s : List Char) : List Char := joinWords (words s)

/-- What becomes of a text behind a character of a word. -/
def collapseAfter : List Char → List Char
  | [] => []
  | c :: s => if isBlank c then (if collapse s = [] then [] else ' ' :: collapse s) else collapse (c :: s)

theorem collapse_blank (hc : isBlank c = true) (s : List Char) : collapse (c :: s) = collapse s := by
  rw [collapse, words_blank hc, collapse]

theorem collapse_cons (hc : isBlank c = false) (s : List Char) : collapse (c :: s) = c :: collapseAfter s := by
  have hword : IsWord [c] := ⟨by simp, by simpa using hc⟩
  rcases s with _ | ⟨d, s⟩
  · rw [collapse, words_of_isWord hword]
    rfl
  by_cases hd : isBlank d = true
  · have hwords : words (c :: d :: s) = [c] :: words s := by
      simpa [words_of_isWord hword] using words_append_blank hd [c] s
    rw [collapse, hwords, collapseAfter, if_pos hd]
    by_cases hnil : words s = []
    · rw [if_pos (by rw [collapse, hnil]; rfl), hnil]
      rfl
    · have hne : collapse s ≠ [] := fun h => hnil ((joinWords_eq_nil fun w => isWord_of_mem_words).mp h)
      rw [if_neg hne, joinWords_cons _ hnil]
      rfl
  · have hd : isBlank d = false := by simpa using hd
    have hne : words (d :: s) ≠ [] := by
      obtain ⟨piece, pieces, hpieces⟩ := List.exists_cons_of_ne_nil (List.splitOnP_ne_nil isBlank s)
      simp [words, List.splitOnP_cons_eq_if_modifyHead, hd, hpieces]
    rw [collapse, words_cons_cons hc hd, joinWords_modifyHead hne, collapseAfter, hd]
    rfl

/-! ## Where a sentence ends -/

def asSpace (c : Char) : Char := if c = '\n' ∨ c = '\r' ∨ c = '\t' then ' ' else c

/-- The sentence ends before a character that is taken for `q`. -/
def EndsBefore (third second first q : Char) : Prop :=
  q = ' ' ∧ first = '.' ∧ (¬ isUppercase second ∨ isUppercase third) ∨ first = '\u3002' ∨ first = '\uff0e'

def IsSentence (third second first : Char) (s : List Char) : Prop := sentence third second first s = s

theorem sentence_cons (third second first c : Char) (s : List Char) :
    (EndsBefore third second first (asSpace c) ∧ sentence third second first (c :: s) = []) ∨
      (¬ EndsBefore third second first (asSpace c) ∧
        sentence third second first (c :: s) = c :: sentence second first (asSpace c) s) := by
  have hdef : sentence third second first (c :: s) =
      if asSpace c = ' ' ∧ first = '.' ∧ (¬ isUppercase second ∨ isUppercase third) then []
      else if first = '\u3002' ∨ first = '\uff0e' then []
      else c :: sentence second first (asSpace c) s := rfl
  unfold EndsBefore
  rw [hdef]
  split
  · exact Or.inl ⟨Or.inl ‹_›, rfl⟩
  · split
    · exact Or.inl ⟨Or.inr ‹_›, rfl⟩
    · exact Or.inr ⟨by simp_all, rfl⟩

section

variable {third second first third' second' first' q q' : Char}

theorem isSentence_cons : IsSentence third second first (c :: s) ↔
    ¬ EndsBefore third second first (asSpace c) ∧ IsSentence second first (asSpace c) s := by
  unfold IsSentence
  rcases sentence_cons third second first c s with ⟨hends, hs⟩ | ⟨hends, hs⟩
  · simp [hs, hends]
  · simp [hs, hends]

theorem sentence_isPrefix (third second first : Char) (s : List Char) : sentence third second first s <+: s := by
  induction s generalizing third second first with
  | nil => exact List.prefix_refl _
  | cons c s ih =>
    rcases sentence_cons third second first c s with ⟨-, hs⟩ | ⟨-, hs⟩
    · rw [hs]
      exact List.nil_prefix
    · rw [hs]
      exact List.cons_prefix_cons.mpr ⟨rfl, ih second first (asSpace c)⟩

/-- The cut leaves no end inside. -/
theorem isSentence_sentence (third second first : Char) (s : List Char) :
    IsSentence third second first (sentence third second first s) := by
  induction s generalizing third second first with
  | nil => rfl
  | cons c s ih =>
    rcases sentence_cons third second first c s with ⟨-, hs⟩ | ⟨hends, hs⟩
    · rw [hs]
      rfl
    · rw [hs]
      exact isSentence_cons.mpr ⟨hends, ih second first (asSpace c)⟩

/-! ## Characters that tell the same -/

def IsStop (c : Char) : Prop := c = '.' ∨ c = '\u3002' ∨ c = '\uff0e'

/-- Neither a stop nor a capital, so it takes no part in ending a sentence. -/
def IsPlain (c : Char) : Prop := ¬ IsStop c ∧ isUppercase c = false

/-- The three characters before a place say the same of it, and of the places after it. The one
further back is asked for only where the nearer ones are an abbreviation. -/
structure Alike (third second first third' second' first' : Char) : Prop where
  stop : first' = first ∨ ¬ IsStop first ∧ ¬ IsStop first'
  upper : isUppercase first' = isUppercase first
  upperBefore : isUppercase first = true → isUppercase second' = isUppercase second
  atStop : first = '.' → isUppercase second' = isUppercase second ∧
    (isUppercase second = true → isUppercase third' = isUppercase third)

theorem Alike.refl (third second first : Char) : Alike third second first third second first :=
  ⟨Or.inl rfl, rfl, fun _ => rfl, fun _ => ⟨rfl, fun _ => rfl⟩⟩

/-- Behind plain characters it does not matter what came before. -/
theorem alike_plain (h : IsPlain first) (h' : IsPlain first') (third second third' second' : Char) :
    Alike third second first third' second' first' where
  stop := Or.inr ⟨h.1, h'.1⟩
  upper := by rw [h.2, h'.2]
  upperBefore := fun hfirst => by simp [h.2] at hfirst
  atStop := fun hfirst => absurd (Or.inl hfirst) h.1

theorem Alike.push (h : Alike third second first third' second' first') (c : Char) :
    Alike second first c second' first' c where
  stop := Or.inl rfl
  upper := rfl
  upperBefore := fun _ => h.upper
  atStop := fun _ => ⟨h.upper, h.upperBefore⟩

theorem isPlain_space : IsPlain ' ' := by simp only [IsPlain, IsStop]; decide +kernel

theorem not_endsBefore (h : ¬ IsStop first) : ¬ EndsBefore third second first q := by
  rintro (⟨-, hdot, -⟩ | hfirst)
  · exact h (Or.inl hdot)
  · exact h (Or.inr hfirst)

theorem Alike.endsBefore (h : Alike third second first third' second' first') (hq : q' = ' ' → q = ' ')
    (hends : EndsBefore third' second' first' q') : EndsBefore third second first q := by
  rcases h.stop with heq | ⟨-, hno⟩
  · subst heq
    rcases hends with ⟨hspace, hdot, hcapitals⟩ | hends
    · obtain ⟨hsecond, hthird⟩ := h.atStop hdot
      refine Or.inl ⟨hq hspace, hdot, ?_⟩
      by_cases hup : isUppercase second = true
      · rwa [hsecond, hthird hup] at hcapitals
      · exact Or.inl hup
    · exact Or.inr hends
  · exact absurd hends (not_endsBefore hno)

/-! ## What becomes of a sentence -/

/-- Behind a character of a word, and behind a plain character, there is no end of the sentence in
the collapsed text. -/
theorem isSentence_collapse (hspace : ∀ c ∈ s, isBlank c = true → asSpace c = ' ') :
    (∀ {third second first third' second' first'}, Alike third second first third' second' first' →
      IsSentence third second first s → IsSentence third' second' first' (collapseAfter s)) ∧
    (∀ {third second first third' second' first'}, IsPlain first → IsPlain first' →
      IsSentence third second first s → IsSentence third' second' first' (collapse s)) := by
  induction s with
  | nil => exact ⟨fun _ _ => rfl, fun _ _ _ => rfl⟩
  | cons c s ih =>
    obtain ⟨hc, hs⟩ := List.forall_mem_cons.mp hspace
    obtain ⟨ihAfter, ihPlain⟩ := ih hs
    have hword (hblank : isBlank c = false) {third second first third' second' first' : Char}
        (h : Alike third second first third' second' first') (hsentence : IsSentence third second first (c :: s)) :
        IsSentence third' second' first' (collapse (c :: s)) := by
      obtain ⟨hends, hrest⟩ := isSentence_cons.mp hsentence
      rw [collapse_cons hblank]
      exact isSentence_cons.mpr ⟨fun h' => hends (h.endsBefore id h'), ihAfter (h.push _) hrest⟩
    constructor
    · intro _ _ _ _ _ _ h hsentence
      cases hblank : isBlank c with
      | false =>
        have hafter : collapseAfter (c :: s) = collapse (c :: s) := by simp [collapseAfter, hblank]
        rw [hafter]
        exact hword hblank h hsentence
      | true =>
        obtain ⟨hends, hrest⟩ := isSentence_cons.mp hsentence
        rw [hc hblank] at hends hrest
        simp only [collapseAfter, hblank, if_true]
        split
        · rfl
        · exact isSentence_cons.mpr ⟨fun h' => hends (h.endsBefore (fun _ => rfl) h'),
            ihPlain isPlain_space isPlain_space hrest⟩
    · intro _ _ _ _ _ _ hfirst hfirst' hsentence
      cases hblank : isBlank c with
      | false => exact hword hblank (alike_plain hfirst hfirst' _ _ _ _) hsentence
      | true =>
        rw [collapse_blank hblank]
        have hrest := (isSentence_cons.mp hsentence).2
        rw [hc hblank] at hrest
        exact ihPlain isPlain_space hfirst' hrest

theorem isSentence_curlyQuotes (h : Alike third second first third' second' first')
    (hs : IsSentence third second first s) : IsSentence third' second' first' (curlyQuotes s) := by
  have hopen : IsPlain '`' ∧ IsPlain '\u201c' := by simp only [IsPlain, IsStop]; decide +kernel
  have hclose : IsPlain '\'' ∧ IsPlain '\u201d' := by simp only [IsPlain, IsStop]; decide +kernel
  fun_induction curlyQuotes s generalizing third second first third' second' first' with
  | case1 s ih =>
    obtain ⟨hends, hs⟩ := isSentence_cons.mp hs
    refine isSentence_cons.mpr ⟨fun h' => hends (h.endsBefore (by decide) h'), ?_⟩
    exact ih (alike_plain hopen.1 hopen.2 _ _ _ _) (isSentence_cons.mp hs).2
  | case2 s ih =>
    obtain ⟨hends, hs⟩ := isSentence_cons.mp hs
    refine isSentence_cons.mpr ⟨fun h' => hends (h.endsBefore (by decide) h'), ?_⟩
    exact ih (alike_plain hclose.1 hclose.2 _ _ _ _) (isSentence_cons.mp hs).2
  | case3 c s _ _ ih =>
    obtain ⟨hends, hs⟩ := isSentence_cons.mp hs
    exact isSentence_cons.mpr ⟨fun h' => hends (h.endsBefore id h'), ih (h.push _) hs⟩
  | case4 => rfl

end

/-! ## Curly quotes -/

theorem curlyQuotes_cons (hc : c ≠ '`' ∧ c ≠ '\'') (s : List Char) : curlyQuotes (c :: s) = c :: curlyQuotes s := by
  rw [curlyQuotes]
  · exact fun _ h => absurd h hc.1
  · exact fun _ h => absurd h hc.2

theorem head?_curlyQuotes (hc : c = '`' ∨ c = '\'') (h : (curlyQuotes s).head? = some c) : s.head? = some c := by
  fun_cases curlyQuotes s with
  | case1 => rcases hc with rfl | rfl <;> simp [curlyQuotes] at h
  | case2 => rcases hc with rfl | rfl <;> simp [curlyQuotes] at h
  | case3 d s hbackquotes hquotes => simpa [curlyQuotes] using h
  | case4 => cases h

/-- Two quotes side by side have become one. -/
theorem not_isInfix_curlyQuotes (hc : c = '`' ∨ c = '\'') (s : List Char) : ¬ [c, c] <:+: curlyQuotes s := by
  fun_induction curlyQuotes s with
  | case1 s ih => rcases hc with rfl | rfl <;> simp [List.infix_cons_iff, ih]
  | case2 s ih => rcases hc with rfl | rfl <;> simp [List.infix_cons_iff, ih]
  | case3 d s hbackquotes hquotes ih =>
    intro hpair
    rcases List.infix_cons_iff.mp hpair with hprefix | hpair
    · obtain ⟨rfl, hnext⟩ := List.cons_prefix_cons.mp hprefix
      have hs : s.head? = some c := head?_curlyQuotes hc (by obtain ⟨_, h⟩ := hnext; rw [← h]; rfl)
      obtain ⟨s', rfl⟩ : ∃ s', s = c :: s' := List.head?_eq_some_iff.mp hs
      rcases hc with rfl | rfl
      · exact hbackquotes s' rfl rfl
      · exact hquotes s' rfl rfl
    · exact ih hpair
  | case4 => simp

theorem curlyQuotes_of_not_isInfix (hopen : ¬ ['`', '`'] <:+: s) (hclose : ¬ ['\'', '\''] <:+: s) :
    curlyQuotes s = s := by
  fun_induction curlyQuotes s with
  | case1 s => exact absurd (List.infix_append [] ['`', '`'] s) hopen
  | case2 s => exact absurd (List.infix_append [] ['\'', '\''] s) hclose
  | case3 c s _ _ ih =>
    rw [ih (fun h => hopen (h.trans (List.infix_cons (List.infix_refl s))))
      (fun h => hclose (h.trans (List.infix_cons (List.infix_refl s))))]
  | case4 => rfl

theorem mem_curlyQuotes (h : c ∈ curlyQuotes s) : c ∈ s ∨ c = '\u201c' ∨ c = '\u201d' := by
  fun_induction curlyQuotes s with
  | case1 s ih =>
    rcases List.mem_cons.mp h with rfl | h
    · simp
    · exact (ih h).imp_left fun hc => by simp [hc]
  | case2 s ih =>
    rcases List.mem_cons.mp h with rfl | h
    · simp
    · exact (ih h).imp_left fun hc => by simp [hc]
  | case3 d s _ _ ih =>
    rcases List.mem_cons.mp h with rfl | h
    · simp
    · exact (ih h).imp_left fun hc => List.mem_cons_of_mem d hc
  | case4 => cases h

theorem isWord_curlyQuotes (h : IsWord s) : IsWord (curlyQuotes s) := by
  obtain ⟨hne, hs⟩ := h
  constructor
  · fun_cases curlyQuotes s <;> simp_all
  · intro c hc
    rcases mem_curlyQuotes hc with hc | rfl | rfl
    · exact hs c hc
    · decide
    · decide

theorem curlyQuotes_append_space (w s : List Char) : curlyQuotes (w ++ ' ' :: s) = curlyQuotes w ++ ' ' :: curlyQuotes s := by
  fun_induction curlyQuotes w with
  | case1 w ih => simp [curlyQuotes, ih]
  | case2 w ih => simp [curlyQuotes, ih]
  | case3 c w hbackquotes hquotes ih =>
    have hnext {q : Char} (hq : q ≠ ' ') {s' : List Char} (h : w ++ ' ' :: s = q :: s') : ∃ w', w = q :: w' := by
      cases w with
      | nil => exact absurd (List.cons.inj h).1.symm hq
      | cons d w => exact ⟨w, by rw [(List.cons.inj h).1]⟩
    rw [List.cons_append, curlyQuotes, ih, List.cons_append]
    · intro s' hc hs
      obtain ⟨w', hw⟩ := hnext (by decide) hs
      exact hbackquotes w' hc hw
    · intro s' hc hs
      obtain ⟨w', hw⟩ := hnext (by decide) hs
      exact hquotes w' hc hw
  | case4 => exact curlyQuotes_cons (by decide) s

theorem curlyQuotes_joinWords (ws : List (List Char)) : curlyQuotes (joinWords ws) = joinWords (ws.map curlyQuotes) := by
  induction ws with
  | nil => rfl
  | cons w ws ih =>
    by_cases hws : ws = []
    · subst hws
      simp [joinWords]
    · rw [joinWords_cons w hws, curlyQuotes_append_space, ih, List.map_cons, joinWords_cons _ (by simpa using hws)]

/-- What a text begins with after its quotes are curled, it began with before. -/
theorem isPrefix_of_curlyQuotes {p : List Char} (hopen : '\u201c' ∉ p) (hclose : '\u201d' ∉ p)
    (h : p <+: (curlyQuotes s).map Char.toLower) : p <+: s.map Char.toLower := by
  fun_induction curlyQuotes s generalizing p with
  | case1 s ih =>
    rcases List.prefix_cons_iff.mp h with rfl | ⟨p, rfl, -⟩
    · exact List.nil_prefix
    · exact absurd List.mem_cons_self hopen
  | case2 s ih =>
    rcases List.prefix_cons_iff.mp h with rfl | ⟨p, rfl, -⟩
    · exact List.nil_prefix
    · exact absurd List.mem_cons_self hclose
  | case3 c s _ _ ih =>
    rcases List.prefix_cons_iff.mp h with rfl | ⟨p, rfl, hrest⟩
    · exact List.nil_prefix
    · exact List.cons_prefix_cons.mpr ⟨rfl, ih (fun hp => hopen (List.mem_cons_of_mem _ hp))
        (fun hp => hclose (List.mem_cons_of_mem _ hp)) hrest⟩
  | case4 => exact h

theorem isNotice_iff : isNotice s = true ↔ ∃ p ∈ noticeOpenings, p <+: s.map Char.toLower := by
  simp [isNotice]

theorem isNotice_curlyQuotes (h : isNotice s = false) : isNotice (curlyQuotes s) = false := by
  rw [← Bool.not_eq_true, isNotice_iff] at h ⊢
  rintro ⟨p, hp, hprefix⟩
  have hcurly : ∀ p ∈ noticeOpenings, '\u201c' ∉ p ∧ '\u201d' ∉ p := by decide
  exact h ⟨p, hp, isPrefix_of_curlyQuotes (hcurly p hp).1 (hcurly p hp).2 hprefix⟩

/-! ## The normal form -/

structure SingleSpaced (s : List Char) : Prop where
  first : ∀ c ∈ s.head?, isBlank c = false
  last : ∀ c ∈ s.getLast?, isBlank c = false
  spaces : ∀ c ∈ s, isBlank c = true → c = ' '
  apart : ¬ [' ', ' '] <:+: s

theorem singleSpaced_of_isWord (h : IsWord w) : SingleSpaced w where
  first := fun c hc => h.2 c (List.mem_of_mem_head? hc)
  last := fun c hc => h.2 c (List.mem_of_mem_getLast? hc)
  spaces := fun c hc hblank => by simp [h.2 c hc] at hblank
  apart := fun hpair => absurd (h.2 ' ' (hpair.subset List.mem_cons_self)) (by decide)

/-- A space behind a word and before a text that does not start with one stands alone. -/
theorem not_isInfix_spaces (hw : ∀ c ∈ w, isBlank c = false) (hfirst : s.head? ≠ some ' ') (hs : ¬ [' ', ' '] <:+: s) :
    ¬ [' ', ' '] <:+: w ++ ' ' :: s := by
  induction w with
  | nil =>
    intro hpair
    rcases List.infix_cons_iff.mp hpair with hprefix | hpair
    · obtain ⟨more, hmore⟩ := (List.cons_prefix_cons.mp hprefix).2
      exact hfirst (by rw [← hmore]; rfl)
    · exact hs hpair
  | cons c w ih =>
    obtain ⟨hc, hw⟩ := List.forall_mem_cons.mp hw
    intro hpair
    rcases List.infix_cons_iff.mp hpair with hprefix | hpair
    · obtain ⟨rfl, -⟩ := List.cons_prefix_cons.mp hprefix
      exact absurd hc (by decide)
    · exact ih hw hpair

theorem SingleSpaced.word_append (hw : IsWord w) (hne : s ≠ []) (hs : SingleSpaced s) : SingleSpaced (w ++ ' ' :: s) where
  first := fun c hc => hw.2 c (List.mem_of_mem_head? (by rwa [List.head?_append_of_ne_nil w hw.1] at hc))
  last := by
    have hlast : (w ++ ' ' :: s).getLast? = s.getLast? := by
      rw [List.append_cons, List.getLast?_append_of_ne_nil _ hne]
    rw [hlast]
    exact hs.last
  spaces := by
    intro c hc hblank
    rcases List.mem_append.mp hc with hc | hc
    · simp [hw.2 c hc] at hblank
    · rcases List.mem_cons.mp hc with rfl | hc
      · rfl
      · exact hs.spaces c hc hblank
  apart := not_isInfix_spaces hw.2 (fun h => absurd (hs.first ' ' h) (by decide)) hs.apart

theorem singleSpaced_joinWords (h : ∀ w ∈ ws, IsWord w) : SingleSpaced (joinWords ws) := by
  induction ws with
  | nil => exact ⟨by simp [joinWords], by simp [joinWords], by simp [joinWords], by simp [joinWords]⟩
  | cons w ws ih =>
    obtain ⟨hw, hws⟩ := List.forall_mem_cons.mp h
    by_cases hnil : ws = []
    · subst hnil
      simpa [joinWords] using singleSpaced_of_isWord hw
    · rw [joinWords_cons w hnil]
      exact (ih hws).word_append hw (fun h => hnil ((joinWords_eq_nil hws).mp h))

/-- Single spaces stay where they are. Behind a character of a word the text may begin with one. -/
theorem collapse_of_spaces (hspaces : ∀ c ∈ s, isBlank c = true → c = ' ') (hlast : ∀ c ∈ s.getLast?, isBlank c = false)
    (hapart : ¬ [' ', ' '] <:+: s) : collapseAfter s = s ∧ ((∀ c ∈ s.head?, isBlank c = false) → collapse s = s) := by
  induction s with
  | nil => exact ⟨rfl, fun _ => rfl⟩
  | cons c s ih =>
    obtain ⟨hc, hs⟩ := List.forall_mem_cons.mp hspaces
    have hlast' : ∀ d ∈ s.getLast?, isBlank d = false := by
      cases s with
      | nil => simp
      | cons d s => rwa [List.getLast?_cons_cons] at hlast
    obtain ⟨ihAfter, ihFirst⟩ := ih hs hlast' (fun hpair => hapart (hpair.trans (List.infix_cons (List.infix_refl s))))
    have hword (hblank : isBlank c = false) : collapse (c :: s) = c :: s := by rw [collapse_cons hblank, ihAfter]
    constructor
    · cases hblank : isBlank c with
      | false =>
        have hafter : collapseAfter (c :: s) = collapse (c :: s) := by simp [collapseAfter, hblank]
        rw [hafter, hword hblank]
      | true =>
        obtain rfl : c = ' ' := hc hblank
        have hne : s ≠ [] := by
          rintro rfl
          exact absurd (hlast ' ' rfl) (by decide)
        have hfirst : ∀ d ∈ s.head?, isBlank d = false := by
          intro d hd
          obtain ⟨more, rfl⟩ := List.head?_eq_some_iff.mp hd
          rw [Bool.eq_false_iff]
          intro hblank
          obtain rfl : d = ' ' := hs d List.mem_cons_self hblank
          exact hapart (List.infix_append [] [' ', ' '] more)
        rw [collapseAfter, if_pos hblank, ihFirst hfirst, if_neg hne]
    · intro hfirst
      exact hword (hfirst c rfl)

theorem SingleSpaced.collapse_eq (h : SingleSpaced s) : collapse s = s :=
  (collapse_of_spaces h.spaces h.last h.apart).2 h.first

/-! ## Synopses -/

theorem synopsis_eq (text : List Char) : synopsis text =
    if isNotice (collapse (sentence '\x00' '\x00' '\x00' text)) then []
    else curlyQuotes (collapse (sentence '\x00' '\x00' '\x00' text)) := rfl

theorem mem_synopsis {text : List Char} (h : c ∈ synopsis text) : c ∈ text ∨ c = ' ' ∨ c = '\u201c' ∨ c = '\u201d' := by
  rw [synopsis_eq] at h
  split at h
  · cases h
  · rcases mem_curlyQuotes h with h | h
    · rcases mem_joinWords h with h | ⟨w, hw, hc⟩
      · exact Or.inr (Or.inl h)
      · exact Or.inl ((sentence_isPrefix _ _ _ text).subset (subset_of_mem_words hw hc))
    · exact Or.inr (Or.inr h)

def OrdinarySpaces (text : List Char) : Prop :=
  ∀ c ∈ text, isBlank c = true → c = ' ' ∨ c = '\t' ∨ c = '\r' ∨ c = '\n'

instance (text : List Char) : Decidable (OrdinarySpaces text) := List.decidableBAll _ text

/-- One sentence, with its words one space apart and no doubled quotes. -/
structure IsNormal (s : List Char) : Prop where
  spaced : SingleSpaced s
  backquotes : ¬ ['`', '`'] <:+: s
  quotes : ¬ ['\'', '\''] <:+: s
  sentence : IsSentence '\x00' '\x00' '\x00' s

theorem singleSpaced_synopsis (text : List Char) : SingleSpaced (synopsis text) := by
  rw [synopsis_eq]
  split
  · exact @singleSpaced_joinWords [] (by simp)
  · rw [collapse, curlyQuotes_joinWords]
    refine singleSpaced_joinWords fun w hw => ?_
    obtain ⟨word, hword, rfl⟩ := List.mem_map.mp hw
    exact isWord_curlyQuotes (isWord_of_mem_words hword)

theorem not_isInfix_synopsis (hc : c = '`' ∨ c = '\'') (text : List Char) : ¬ [c, c] <:+: synopsis text := by
  rw [synopsis_eq]
  split
  · simp
  · exact not_isInfix_curlyQuotes hc _

theorem isSentence_synopsis {text : List Char} (h : OrdinarySpaces text) :
    IsSentence '\x00' '\x00' '\x00' (synopsis text) := by
  have hspace : ∀ c ∈ sentence '\x00' '\x00' '\x00' text, isBlank c = true → asSpace c = ' ' := by
    intro c hc hblank
    rcases h c ((sentence_isPrefix _ _ _ text).subset hc) hblank with rfl | rfl | rfl | rfl <;> decide
  have hplain : IsPlain '\x00' := by simp only [IsPlain, IsStop]; decide +kernel
  have hcollapsed : IsSentence '\x00' '\x00' '\x00' (collapse (sentence '\x00' '\x00' '\x00' text)) :=
    (isSentence_collapse hspace).2 hplain hplain (isSentence_sentence _ _ _ text)
  rw [synopsis_eq]
  split
  · rfl
  · exact isSentence_curlyQuotes (Alike.refl _ _ _) hcollapsed

theorem isNormal_synopsis {text : List Char} (h : OrdinarySpaces text) : IsNormal (synopsis text) :=
  ⟨singleSpaced_synopsis text, not_isInfix_synopsis (Or.inl rfl) text, not_isInfix_synopsis (Or.inr rfl) text,
    isSentence_synopsis h⟩

theorem isNotice_synopsis (text : List Char) : isNotice (synopsis text) = false := by
  rw [synopsis_eq]
  split
  · decide
  · rename_i hnotice
    exact isNotice_curlyQuotes (by simpa using hnotice)

theorem synopsis_of_isNormal (h : IsNormal s) (hnotice : isNotice s = false) : synopsis s = s := by
  rw [synopsis_eq, h.sentence, h.spaced.collapse_eq, hnotice, curlyQuotes_of_not_isInfix h.backquotes h.quotes]
  rfl

/-- A synopsis is in normal form and is its own synopsis. A text that is its own synopsis is one in normal form that is
no notice. -/
theorem synopsis_normal :
    (∀ text, OrdinarySpaces text → IsNormal (synopsis text) ∧ synopsis (synopsis text) = synopsis text) ∧
    ∀ s, synopsis s = s ↔ IsNormal s ∧ isNotice s = false := by
  refine ⟨fun text h => ?_, fun s => ⟨fun heq => ?_, fun ⟨hs, hnotice⟩ => synopsis_of_isNormal hs hnotice⟩⟩
  · exact ⟨isNormal_synopsis h, synopsis_of_isNormal (isNormal_synopsis h) (isNotice_synopsis text)⟩
  · have hspaced : SingleSpaced s := heq ▸ singleSpaced_synopsis s
    have hordinary : OrdinarySpaces s := fun c hc hblank => Or.inl (hspaced.spaces c hc hblank)
    rw [← heq]
    exact ⟨isNormal_synopsis hordinary, isNotice_synopsis s⟩

def sampleComment : List Char := "Package p, by J. Doe,\r\n\treads  ``tar'' files. It writes none.".toList

theorem sampleComment_synopsis : OrdinarySpaces sampleComment ∧
    synopsis sampleComment = "Package p, by J. Doe, reads \u201ctar\u201d files.".toList ∧
    IsNormal (synopsis sampleComment) ∧ synopsis (synopsis sampleComment) = synopsis sampleComment ∧
    IsNormal "Package p, by J. Doe.".toList := by
  have hspaces : OrdinarySpaces sampleComment := by decide +kernel
  have hnormal := synopsis_normal.1 sampleComment hspaces
  have hstays : synopsis "Package p, by J. Doe.".toList = "Package p, by J. Doe.".toList := by decide +kernel
  exact ⟨hspaces, by decide +kernel, hnormal.1, hnormal.2, ((synopsis_normal.2 _).mp hstays).1⟩

/-- A space without a break ends no sentence, but the space that it becomes does. -/
example : synopsis "one.\u00a0two".toList = "one. two".toList ∧ synopsis "one. two".toList = "one.".toList := by
  decide +kernel

end PackageIndex.Source
