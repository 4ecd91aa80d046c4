/-
  PackageIndex.Proofs.Cgo.Splitter — words are read back however they are written.

  A text is made of pieces: a character that stands for itself, one behind a backslash, and
  quotes with what stands between them. The splitter takes a whole piece to a state that is again
  outside of quotes and behind no backslash, so a text of whole pieces has words, and a text that
  breaks off in a piece has none.

  - `splitWords_text`: words that are spelt in pieces, with white space between them.
  - `splitWords_append`: what stands before a space and has words is split on its own.
  - `splitWords_eq_quote`, `splitWords_eq_escape`: where a text breaks off.
  - `shellWords?_eq`: the words that `#cgo` lines are read by are those of the splitter.
  - `splitWords_undoes_quoting`: all of these.
-/

import Mathlib.Data.List.Induction
import PackageIndex.Cgo.Splitter
import PackageIndex.Cgo.Words

namespace PackageIndex.Cgo

/-! ## Written words -/

def IsQuote (c : Char) : Prop := c = '"' ∨ c = '\''

instance (c : Char) : Decidable (IsQuote c) := inferInstanceAs (Decidable (c = '"' ∨ c = '\''))

/-- A character between quotes: these and a backslash stand behind a backslash. -/
inductive QuotedMark (quote : Char) where
  | plain (c : Char) (h : c ≠ quote ∧ c ≠ '\\')
  | escaped (c : Char)

namespace QuotedMark

variable {quote : Char}

def text : QuotedMark quote → List Char
  | plain c _ => [c]
  | escaped c => ['\\', c]

def char : QuotedMark quote → Char
  | plain c _ => c
  | escaped c => c

end QuotedMark

inductive Piece where
  | plain (c : Char) (h : c ≠ '\\' ∧ c ≠ '"' ∧ c ≠ '\'')
  | escaped (c : Char)
  | quoted (quote : Char) (h : IsQuote quote) (marks : List (QuotedMark quote))

namespace Piece

def text : Piece → List Char
  | plain c _ => [c]
  | escaped c => ['\\', c]
  | quoted quote _ marks => quote :: (marks.flatMap QuotedMark.text ++ [quote])

def value : Piece → List Char
  | plain c _ => [c]
  | escaped c => [c]
  | quoted _ _ marks => marks.map QuotedMark.char

def isQuoted : Piece → Bool
  | quoted .. => true
  | _ => false

def endsWord : Piece → Bool
  | plain c _ => isBlank c
  | _ => false

end Piece

/-- A word, with the white space before it. One that is empty has quotes, having a piece. -/
structure SpeltWord where
  gap : List Char
  pieces : List Piece
  isGap : ∀ c ∈ gap, isBlank c = true
  isWord : pieces ≠ [] ∧ ∀ p ∈ pieces, p.endsWord = false

namespace SpeltWord

def text (w : SpeltWord) : List Char := w.gap ++ w.pieces.flatMap Piece.text

def value (w : SpeltWord) : List Char := w.pieces.flatMap Piece.value

end SpeltWord

structure WrittenWords where
  words : List SpeltWord
  trailing : List Char
  apart : ∀ w ∈ words.tail, w.gap ≠ []
  isTrailing : ∀ c ∈ trailing, isBlank c = true

namespace WrittenWords

def text (ws : WrittenWords) : List Char := ws.words.flatMap SpeltWord.text ++ ws.trailing

def values (ws : WrittenWords) : List (List Char) := ws.words.map SpeltWord.value

end WrittenWords

/-- The text is whole pieces, and behind them the opening quotes, if it is left between quotes. -/
def LeftInside : Option Char → List Char → Prop
  | none, s => ∃ ps : List Piece, s = ps.flatMap Piece.text
  | some quote, s => IsQuote quote ∧ ∃ (ps : List Piece) (marks : List (QuotedMark quote)),
      s = ps.flatMap Piece.text ++ quote :: marks.flatMap QuotedMark.text

def EndsInQuote (s : List Char) : Prop :=
  ∃ quote, LeftInside (some quote) s ∨ ∃ front, s = front ++ ['\\'] ∧ LeftInside (some quote) front

/-- The text ends in a backslash that no backslash takes. -/
def EndsInEscape (s : List Char) : Prop := ∃ quote front, s = front ++ ['\\'] ∧ LeftInside quote front

namespace Splitter

variable {st : Splitter} {xs done : List (List Char)} {s word : List Char} {quoted : Bool} {c : Char}

/-! ## Steps -/

theorem step_taken (h : st.escaped = true) : st.step c = { st with word := st.word ++ [c], escaped := false } := if_pos h

theorem step_slash (h : st.escaped = false) : st.step '\\' = { st with escaped := true } := by simp [step, h]

theorem step_closing (h : st.escaped = false) (hc : c ≠ '\\') (hquote : st.quote = some c) :
    st.step c = { st with quote := none } := by
  simp [step, h, hc, hquote]

theorem step_inside {quote : Char} (h : st.escaped = false) (hc : c ≠ '\\') (hquote : st.quote = some quote) (hne : c ≠ quote) :
    st.step c = { st with word := st.word ++ [c] } := by
  simp [step, h, hc, hquote, Ne.symm hne]

theorem step_opening (h : st.escaped = false) (hquote : st.quote = none) (hc : IsQuote c) :
    st.step c = { st with quoted := true, quote := some c } := by
  have hslash : c ≠ '\\' := by rcases hc with rfl | rfl <;> decide
  simp [step, h, hquote, hslash, show c = '"' ∨ c = '\'' from hc]

theorem step_blank (h : st.escaped = false) (hquote : st.quote = none) (hc : isBlank c = true) : st.step c = st.endWord := by
  have hslash : c ≠ '\\' := by rintro rfl; revert hc; decide
  have hdouble : c ≠ '"' := by rintro rfl; revert hc; decide
  have hsingle : c ≠ '\'' := by rintro rfl; revert hc; decide
  simp [step, h, hquote, hslash, hdouble, hsingle, hc]

theorem step_plain (h : st.escaped = false) (hquote : st.quote = none) (hc : c ≠ '\\' ∧ c ≠ '"' ∧ c ≠ '\'')
    (hblank : isBlank c = false) : st.step c = { st with word := st.word ++ [c] } := by
  simp [step, h, hquote, hc, hblank]

/-! ## Pieces -/

theorem foldl_marks {quote : Char} (marks : List (QuotedMark quote)) (done : List (List Char)) (word : List Char) (quoted : Bool) :
    (marks.flatMap QuotedMark.text).foldl step ⟨done, word, false, quoted, some quote⟩ =
      ⟨done, word ++ marks.map QuotedMark.char, false, quoted, some quote⟩ := by
  induction marks generalizing word with
  | nil => simp
  | cons m marks ih =>
    have hone : m.text.foldl step ⟨done, word, false, quoted, some quote⟩ =
        ⟨done, word ++ [m.char], false, quoted, some quote⟩ := by
      cases m with
      | plain c h =>
        show step ⟨done, word, false, quoted, some quote⟩ c = _
        rw [step_inside rfl h.2 rfl h.1]
        rfl
      | escaped c =>
        show step (step ⟨done, word, false, quoted, some quote⟩ '\\') c = _
        rw [step_slash rfl, step_taken rfl]
        rfl
    rw [List.flatMap_cons, List.foldl_append, hone, ih, List.map_cons, List.append_assoc, List.singleton_append]

/-- A piece that goes on with the word adds what it stands for. -/
theorem foldl_piece {p : Piece} (hp : p.endsWord = false) (done : List (List Char)) (word : List Char) (quoted : Bool) :
    p.text.foldl step ⟨done, word, false, quoted, none⟩ = ⟨done, word ++ p.value, false, quoted || p.isQuoted, none⟩ := by
  cases p with
  | plain c h =>
    show step ⟨done, word, false, quoted, none⟩ c = _
    rw [step_plain rfl rfl h hp]
    simp [Piece.value, Piece.isQuoted]
  | escaped c =>
    show step (step ⟨done, word, false, quoted, none⟩ '\\') c = _
    rw [step_slash rfl, step_taken rfl]
    simp [Piece.value, Piece.isQuoted]
  | quoted quote h marks =>
    have hslash : quote ≠ '\\' := by rcases h with rfl | rfl <;> decide
    show (marks.flatMap QuotedMark.text ++ [quote]).foldl step (step ⟨done, word, false, quoted, none⟩ quote) = _
    rw [step_opening rfl rfl h, List.foldl_append, foldl_marks, List.foldl_cons, List.foldl_nil, step_closing rfl hslash rfl]
    simp [Piece.value, Piece.isQuoted]

theorem foldl_pieces {ps : List Piece} (hps : ∀ p ∈ ps, p.endsWord = false) (done : List (List Char)) (word : List Char)
    (quoted : Bool) : (ps.flatMap Piece.text).foldl step ⟨done, word, false, quoted, none⟩ =
      ⟨done, word ++ ps.flatMap Piece.value, false, quoted || ps.any Piece.isQuoted, none⟩ := by
  induction ps generalizing word quoted with
  | nil => simp
  | cons p ps ih =>
    obtain ⟨hp, hps⟩ := List.forall_mem_cons.mp hps
    rw [List.flatMap_cons, List.foldl_append, foldl_piece hp, ih hps]
    simp [Bool.or_assoc]

/-- A word that is spelt counts. -/
theorem isQuoted_or_value_ne_nil {ps : List Piece} (h : ps ≠ []) :
    ps.any Piece.isQuoted = true ∨ ps.flatMap Piece.value ≠ [] := by
  cases ps with
  | nil => exact absurd rfl h
  | cons p ps => cases p <;> simp [Piece.isQuoted, Piece.value]

/-! ## Words -/

/-- The words read so far are `xs`, the last one being ended or not. -/
def Ends (st : Splitter) (xs : List (List Char)) : Prop :=
  st.escaped = false ∧ st.quote = none ∧ st.endWord = { done := xs }

theorem ends_done (xs : List (List Char)) : Ends { done := xs } xs := ⟨rfl, rfl, by simp [endWord]⟩

theorem finish_eq_ok : st.finish = .ok xs ↔ st.Ends xs := by
  obtain ⟨done, word, escaped, quoted, quote⟩ := st
  cases quote with
  | some quote => simp [finish, Ends]
  | none =>
    cases escaped with
    | true => simp [finish, Ends]
    | false =>
      by_cases hword : quoted = true ∨ word ≠ []
      · simp [finish, Ends, endWord, hword]
      · have hnone : quoted = false ∧ word = [] := by simpa using hword
        simp [finish, Ends, endWord, hnone]

theorem Ends.blank (h : st.Ends xs) (hc : isBlank c = true) : st.step c = { done := xs } := by
  rw [step_blank h.1 h.2.1 hc, h.2.2]

theorem foldl_gap {gap : List Char} (hgap : ∀ c ∈ gap, isBlank c = true) : gap.foldl step { done := xs } = { done := xs } := by
  induction gap with
  | nil => rfl
  | cons c gap ih =>
    obtain ⟨hc, hgap⟩ := List.forall_mem_cons.mp hgap
    rw [List.foldl_cons, (ends_done xs).blank hc, ih hgap]

theorem Ends.gap {gap : List Char} (h : st.Ends xs) (hgap : ∀ c ∈ gap, isBlank c = true) (hne : gap ≠ []) :
    gap.foldl step st = { done := xs } := by
  cases gap with
  | nil => exact absurd rfl hne
  | cons c gap =>
    obtain ⟨hc, hgap⟩ := List.forall_mem_cons.mp hgap
    rw [List.foldl_cons, h.blank hc, foldl_gap hgap]

/-- A word behind the white space before it. -/
theorem ends_word (w : SpeltWord) (hgap : w.gap.foldl step st = { done := xs }) :
    Ends (w.text.foldl step st) (xs ++ [w.value]) := by
  rw [SpeltWord.text, List.foldl_append, hgap, foldl_pieces w.isWord.2]
  refine ⟨rfl, rfl, ?_⟩
  have hcounts := isQuoted_or_value_ne_nil w.isWord.1
  simp only [endWord, Bool.false_or, List.nil_append]
  rw [if_pos hcounts]
  rfl

theorem Ends.words {ws : List SpeltWord} (h : st.Ends xs) (hapart : ∀ w ∈ ws, w.gap ≠ []) :
    Ends ((ws.flatMap SpeltWord.text).foldl step st) (xs ++ ws.map SpeltWord.value) := by
  induction ws generalizing st xs with
  | nil => simpa using h
  | cons w ws ih =>
    obtain ⟨hw, hapart⟩ := List.forall_mem_cons.mp hapart
    have hword := ends_word w (h.gap w.isGap hw)
    have hwords := ih hword hapart
    rw [List.flatMap_cons, List.foldl_append]
    simpa using hwords

theorem Ends.trailing {gap : List Char} (h : st.Ends xs) (hgap : ∀ c ∈ gap, isBlank c = true) :
    Ends (gap.foldl step st) xs := by
  by_cases hne : gap = []
  · subst hne
    exact h
  · rw [h.gap hgap hne]
    exact ends_done xs

/-! ## A text behind another one -/

def behind (xs : List (List Char)) (st : Splitter) : Splitter := { st with done := xs ++ st.done }

theorem endWord_behind (xs : List (List Char)) (st : Splitter) : (st.behind xs).endWord = st.endWord.behind xs := by
  unfold endWord behind
  split <;> simp

theorem step_behind (xs : List (List Char)) (st : Splitter) (c : Char) : (st.behind xs).step c = (st.step c).behind xs := by
  simp only [step, endWord_behind, apply_ite (behind xs)]
  rfl

theorem foldl_behind (xs : List (List Char)) (s : List Char) (st : Splitter) :
    s.foldl step (st.behind xs) = (s.foldl step st).behind xs := by
  induction s generalizing st with
  | nil => rfl
  | cons c s ih => rw [List.foldl_cons, step_behind, ih, List.foldl_cons]

theorem finish_behind (xs : List (List Char)) (st : Splitter) : (st.behind xs).finish = st.finish.map (xs ++ ·) := by
  simp only [finish, endWord_behind, apply_ite (Except.map (xs ++ ·))]
  rfl

/-! ## Texts that break off -/

theorem endWord_frame (st : Splitter) : st.endWord.escaped = st.escaped ∧ st.endWord.quote = st.quote := by
  unfold endWord
  split <;> exact ⟨rfl, rfl⟩

/-- Whole pieces leave the splitter outside of quotes and behind no backslash. -/
theorem outside_piece (p : Piece) (hescaped : st.escaped = false) (hquote : st.quote = none) :
    (p.text.foldl step st).escaped = false ∧ (p.text.foldl step st).quote = none := by
  by_cases hp : p.endsWord = true
  · cases p with
    | plain c h =>
      obtain ⟨hescaped', hquote'⟩ := endWord_frame st
      show (st.step c).escaped = false ∧ (st.step c).quote = none
      rw [step_blank hescaped hquote hp, hescaped', hquote']
      exact ⟨hescaped, hquote⟩
    | escaped c => cases hp
    | quoted quote h marks => cases hp
  · obtain ⟨done, word, escaped, quoted, quote⟩ := st
    obtain rfl : escaped = false := hescaped
    obtain rfl : quote = none := hquote
    rw [foldl_piece (by simpa using hp)]
    exact ⟨rfl, rfl⟩

theorem outside_pieces (ps : List Piece) (hescaped : st.escaped = false) (hquote : st.quote = none) :
    ((ps.flatMap Piece.text).foldl step st).escaped = false ∧ ((ps.flatMap Piece.text).foldl step st).quote = none := by
  induction ps generalizing st with
  | nil => exact ⟨hescaped, hquote⟩
  | cons p ps ih =>
    obtain ⟨hescaped, hquote⟩ := outside_piece p hescaped hquote
    rw [List.flatMap_cons, List.foldl_append]
    exact ih hescaped hquote

theorem state_of_leftInside {quote : Option Char} (h : LeftInside quote s) :
    (s.foldl step {}).escaped = false ∧ (s.foldl step {}).quote = quote := by
  cases quote with
  | none =>
    obtain ⟨ps, rfl⟩ := h
    exact outside_pieces ps rfl rfl
  | some quote =>
    obtain ⟨hopening, ps, marks, rfl⟩ := h
    have houtside : ((ps.flatMap Piece.text).foldl step {}).escaped = false ∧ ((ps.flatMap Piece.text).foldl step {}).quote = none :=
      outside_pieces ps rfl rfl
    obtain ⟨hescaped, hquote⟩ := houtside
    rw [List.foldl_append, List.foldl_cons, step_opening hescaped hquote hopening, hescaped, foldl_marks]
    exact ⟨rfl, rfl⟩

/-- What the state says of the text that was read. -/
def Reflects (st : Splitter) (s : List Char) : Prop :=
  if st.escaped then ∃ front, s = front ++ ['\\'] ∧ LeftInside st.quote front else LeftInside st.quote s

theorem leftInside_escaped {quote : Option Char} (h : LeftInside quote s) (c : Char) : LeftInside quote (s ++ ['\\', c]) := by
  cases quote with
  | none =>
    obtain ⟨ps, rfl⟩ := h
    exact ⟨ps ++ [.escaped c], by simp [Piece.text]⟩
  | some quote =>
    obtain ⟨hopening, ps, marks, rfl⟩ := h
    exact ⟨hopening, ps, marks ++ [.escaped c], by simp [QuotedMark.text]⟩

theorem leftInside_plain (h : LeftInside none s) (hc : c ≠ '\\' ∧ c ≠ '"' ∧ c ≠ '\'') : LeftInside none (s ++ [c]) := by
  obtain ⟨ps, rfl⟩ := h
  exact ⟨ps ++ [.plain c hc], by simp [Piece.text]⟩

theorem reflects_step (h : st.Reflects s) (c : Char) : (st.step c).Reflects (s ++ [c]) := by
  unfold Reflects at h
  cases hescaped : st.escaped with
  | true =>
    rw [hescaped, if_pos rfl] at h
    obtain ⟨front, rfl, hfront⟩ := h
    rw [step_taken hescaped, List.append_assoc]
    exact leftInside_escaped hfront c
  | false =>
    rw [hescaped, if_neg (by decide)] at h
    by_cases hslash : c = '\\'
    · subst hslash
      rw [step_slash hescaped]
      exact ⟨s, rfl, h⟩
    cases hquote : st.quote with
    | some quote =>
      rw [hquote] at h
      obtain ⟨hopening, ps, marks, rfl⟩ := h
      by_cases hclosing : c = quote
      · subst hclosing
        rw [step_closing hescaped hslash hquote, Reflects, hescaped]
        exact ⟨ps ++ [.quoted c hopening marks], by simp [Piece.text]⟩
      · rw [step_inside hescaped hslash hquote hclosing, Reflects, hescaped, hquote]
        exact ⟨hopening, ps, marks ++ [.plain c ⟨hclosing, hslash⟩], by simp [QuotedMark.text]⟩
    | none =>
      rw [hquote] at h
      by_cases hopening : IsQuote c
      · obtain ⟨ps, rfl⟩ := h
        rw [step_opening hescaped hquote hopening, Reflects, hescaped]
        exact ⟨hopening, ps, [], by simp⟩
      · have hplain : c ≠ '\\' ∧ c ≠ '"' ∧ c ≠ '\'' := ⟨hslash, not_or.mp hopening⟩
        by_cases hblank : isBlank c = true
        · obtain ⟨hescaped', hquote'⟩ := endWord_frame st
          rw [step_blank hescaped hquote hblank, Reflects, hescaped', hquote', hescaped, hquote]
          exact leftInside_plain h hplain
        · rw [step_plain hescaped hquote hplain (by simpa using hblank), Reflects, hescaped, hquote]
          exact leftInside_plain h hplain

theorem reflects_run (s : List Char) : (s.foldl step {}).Reflects s := by
  induction s using List.reverseRecOn with
  | nil => exact ⟨[], rfl⟩
  | append_singleton s c ih =>
    rw [List.foldl_append]
    exact reflects_step ih c

theorem quote_of_endsInQuote (h : EndsInQuote s) : (s.foldl step {}).quote.isSome = true := by
  obtain ⟨quote, h | ⟨front, rfl, h⟩⟩ := h
  · rw [(state_of_leftInside h).2]
    rfl
  · obtain ⟨hescaped, hquote⟩ := state_of_leftInside h
    rw [List.foldl_append, List.foldl_cons, List.foldl_nil, step_slash hescaped, hquote]
    rfl

theorem escaped_of_endsInEscape (h : EndsInEscape s) : (s.foldl step {}).escaped = true := by
  obtain ⟨quote, front, rfl, h⟩ := h
  rw [List.foldl_append, List.foldl_cons, List.foldl_nil, step_slash (state_of_leftInside h).1]

theorem quote_isSome_iff : (s.foldl step {}).quote.isSome = true ↔ EndsInQuote s := by
  refine ⟨fun h => ?_, quote_of_endsInQuote⟩
  obtain ⟨quote, hquote⟩ := Option.isSome_iff_exists.mp h
  have hreflects := reflects_run s
  unfold Reflects at hreflects
  rw [hquote] at hreflects
  split at hreflects
  · exact ⟨quote, .inr hreflects⟩
  · exact ⟨quote, .inl hreflects⟩

theorem escaped_iff : (s.foldl step {}).escaped = true ↔ EndsInEscape s := by
  refine ⟨fun h => ?_, escaped_of_endsInEscape⟩
  have hreflects := reflects_run s
  rw [Reflects, if_pos h] at hreflects
  exact ⟨_, hreflects⟩

/-! ## The words of a line -/

def begun (st : Splitter) : Option (List Char) := if st.quoted ∨ st.word ≠ [] then some st.word else none

theorem getD_begun (st : Splitter) : st.begun.getD [] = st.word := by
  unfold begun
  split
  · rfl
  · rename_i hnone
    have hword : st.quoted = false ∧ st.word = [] := by simpa using hnone
    simp [hword.2]

theorem begun_of_word (h : st.word ≠ []) : st.begun = some st.word := if_pos (.inr h)

theorem endWord_eq (st : Splitter) : st.endWord.done = st.done ++ st.begun.toList ∧ st.endWord.begun = none := by
  by_cases hword : st.quoted = true ∨ st.word ≠ []
  · simp [endWord, begun, hword]
  · simp [endWord, begun, hword]

/-- What is left of the cases that begin with a backslash. -/
theorem ne_slash (hlast : c = '\\' → s = [] → False) (hmore : ∀ d t, c = '\\' → s = d :: t → False) : c ≠ '\\' := by
  intro hc
  cases s with
  | nil => exact hlast hc rfl
  | cons d t => exact hmore d t hc rfl

theorem toOption_finish {quote : Option Char} {begun : Option (List Char)} (s : List Char) (hescaped : st.escaped = false)
    (hquote : st.quote = quote) (hbegun : st.begun = begun) :
    (s.foldl step st).finish.toOption = (wordsFrom quote begun s).map (st.done ++ ·) := by
  fun_induction wordsFrom quote begun s generalizing st with
  | case1 quote begun hinside => simp [finish, hquote, hinside, Except.toOption]
  | case2 quote begun hinside =>
    simp [finish, hquote, hinside, hescaped, (endWord_eq st).1, hbegun, Except.toOption]
  | case3 quote begun =>
    rw [List.foldl_cons, List.foldl_nil, step_slash hescaped]
    cases quote <;> simp [finish, hquote, Except.toOption]
  | case4 quote begun c s ih =>
    rw [List.foldl_cons, List.foldl_cons, step_slash hescaped, step_taken rfl]
    refine ih rfl hquote ?_
    rw [← hbegun, getD_begun]
    exact begun_of_word (by simp)
  | case5 begun c s hlast hmore ih =>
    rw [List.foldl_cons, step_closing hescaped (ne_slash hlast hmore) hquote]
    exact ih hescaped rfl hbegun
  | case6 quote begun c s hlast hmore hclosing hinside ih =>
    obtain ⟨open', hopen⟩ := Option.isSome_iff_exists.mp hinside
    have hne : c ≠ open' := by
      intro hc
      exact hclosing (by rw [hopen, hc])
    rw [List.foldl_cons, step_inside hescaped (ne_slash hlast hmore) (hquote.trans hopen) hne]
    refine ih hescaped hquote ?_
    rw [← hbegun, getD_begun]
    exact begun_of_word (by simp)
  | case7 quote begun c s hlast hmore hclosing hinside hopening ih =>
    have hnone : st.quote = none := hquote.trans (Option.not_isSome_iff_eq_none.mp hinside)
    rw [List.foldl_cons, step_opening hescaped hnone hopening]
    refine ih hescaped rfl ?_
    rw [← hbegun, getD_begun]
    exact if_pos (.inl rfl)
  | case8 quote begun c s hlast hmore hclosing hinside hopening hblank ih =>
    have hnone : st.quote = none := hquote.trans (Option.not_isSome_iff_eq_none.mp hinside)
    obtain ⟨hescaped', hquote'⟩ := endWord_frame st
    obtain ⟨hdone, hbegun'⟩ := endWord_eq st
    rw [List.foldl_cons, step_blank hescaped hnone hblank, ih (hescaped'.trans hescaped) (hquote'.trans hnone) hbegun', hdone,
      hbegun, Option.map_map]
    simp [Function.comp_def, List.append_assoc]
  | case9 quote begun c s hlast hmore hclosing hinside hopening hblank ih =>
    have hnone : st.quote = none := hquote.trans (Option.not_isSome_iff_eq_none.mp hinside)
    rw [List.foldl_cons, step_plain hescaped hnone ⟨ne_slash hlast hmore, not_or.mp hopening⟩ (by simpa using hblank)]
    refine ih hescaped hnone ?_
    rw [← hbegun, getD_begun]
    exact begun_of_word (by simp)

end Splitter

/-! ## Texts -/

open Splitter

variable {xs : List (List Char)} {s : List Char}

/-- Words are read back however they are spelt. -/
theorem splitWords_text (ws : WrittenWords) : splitWords ws.text = .ok ws.values := by
  obtain ⟨words, trailing, hapart, htrailing⟩ := ws
  show ((words.flatMap SpeltWord.text ++ trailing).foldl step {}).finish = .ok (words.map SpeltWord.value)
  rw [finish_eq_ok, List.foldl_append]
  refine Ends.trailing ?_ htrailing
  cases words with
  | nil => exact ends_done []
  | cons w words =>
    have hfirst : Ends (w.text.foldl step {}) [w.value] := ends_word w (foldl_gap w.isGap)
    rw [List.flatMap_cons, List.foldl_append]
    exact hfirst.words hapart

/-- Words of a text that has words go before those of what follows behind a space, or before its fault. -/
theorem splitWords_append {a b : List Char} (h : splitWords a = .ok xs) :
    splitWords (a ++ ' ' :: b) = (splitWords b).map (xs ++ ·) := by
  have hends : Ends (a.foldl step {}) xs := finish_eq_ok.mp h
  have hspace : (a.foldl step {}).step ' ' = behind xs {} := by
    rw [hends.blank (by decide), behind, List.append_nil]
  rw [splitWords, List.foldl_append, List.foldl_cons, hspace, foldl_behind, finish_behind]
  rfl

theorem splitWords_eq_quote : splitWords s = .error .quote ↔ EndsInQuote s := by
  rw [← quote_isSome_iff, splitWords, finish]
  by_cases hquote : (s.foldl step {}).quote.isSome = true
  · simp [hquote]
  · by_cases hescaped : (s.foldl step {}).escaped = true <;> simp [hquote, hescaped]

theorem splitWords_eq_escape : splitWords s = .error .escape ↔ EndsInEscape s ∧ ¬ EndsInQuote s := by
  rw [← quote_isSome_iff, ← escaped_iff, splitWords, finish]
  by_cases hquote : (s.foldl step {}).quote.isSome = true
  · simp [hquote]
  · by_cases hescaped : (s.foldl step {}).escaped = true <;> simp [hquote, hescaped]

theorem shellWords?_eq (s : List Char) : shellWords? s = (splitWords s).toOption := by
  have hstart : (splitWords s).toOption = (shellWords? s).map ([] ++ ·) := toOption_finish s rfl rfl rfl
  rw [hstart]
  cases shellWords? s <;> rfl

/-- Splitting undoes quoting: words are read back however they are written, and what stands before a space, if it has
words, does not change how the rest is split. There are no words exactly if the text ends between quotes or behind a
backslash that none takes. The lines of a comment are read by these words. -/
theorem splitWords_undoes_quoting :
    (∀ ws : WrittenWords, splitWords ws.text = .ok ws.values) ∧
    (∀ a b xs, splitWords a = .ok xs → splitWords (a ++ ' ' :: b) = (splitWords b).map (xs ++ ·)) ∧
    (∀ s, (∃ e, splitWords s = .error e) ↔ EndsInQuote s ∨ EndsInEscape s) ∧
    (∀ s, splitWords s = .error .quote ↔ EndsInQuote s) ∧
    ∀ s, shellWords? s = (splitWords s).toOption := by
  refine ⟨splitWords_text, fun a b xs h => splitWords_append h, fun s => ?_, fun s => splitWords_eq_quote, shellWords?_eq⟩
  constructor
  · rintro ⟨e, he⟩
    cases e with
    | quote => exact .inl (splitWords_eq_quote.mp he)
    | escape => exact .inr (splitWords_eq_escape.mp he).1
  · intro h
    by_cases hquote : EndsInQuote s
    · exact ⟨.quote, splitWords_eq_quote.mpr hquote⟩
    · have hescape : EndsInEscape s := h.resolve_left hquote
      exact ⟨.escape, splitWords_eq_escape.mpr ⟨hescape, hquote⟩⟩

def sampleWords : WrittenWords where
  words := [
    ⟨[], [.plain 'a' (by decide), .quoted '"' (by decide) [.plain 'b' (by decide), .plain ' ' (by decide), .escaped '"'],
      .escaped ' '], by simp, by decide⟩,
    ⟨[' ', '\t'], [.quoted '\'' (by decide) []], List.all_eq_true.mp (by decide), by decide⟩,
    ⟨['\u3000'], [.quoted '"' (by decide) [.plain '\'' (by decide)], .plain 'é' (by decide), .escaped '\\'],
      List.all_eq_true.mp (by decide), by decide⟩]
  trailing := []
  apart := by decide
  isTrailing := by simp

theorem sampleWords_split : sampleWords.text = "a\"b \\\"\"\\  \t''\u3000\"'\"é\\\\".toList ∧
    splitWords sampleWords.text = .ok ["ab \" ".toList, [], "'é\\".toList] ∧
    splitWords (sampleWords.text ++ ' ' :: "x 'y\\".toList) = .error .quote ∧ EndsInQuote "x 'y\\".toList ∧
    splitWords (sampleWords.text ++ ' ' :: "x".toList) = .ok ["ab \" ".toList, [], "'é\\".toList, ['x']] ∧
    shellWords? "x 'y\\".toList = none := by
  have hquoting := splitWords_undoes_quoting
  have hvalues : sampleWords.values = ["ab \" ".toList, [], "'é\\".toList] := by decide +kernel
  have hwords := hquoting.1 sampleWords
  have hopen : splitWords "x 'y\\".toList = .error .quote := by decide +kernel
  have hx : splitWords "x".toList = .ok [['x']] := by decide +kernel
  refine ⟨by decide +kernel, hvalues ▸ hwords, ?_, (hquoting.2.2.2.1 _).mp hopen, ?_, ?_⟩
  · rw [hquoting.2.1 _ _ _ hwords, hopen]
    rfl
  · rw [hquoting.2.1 _ _ _ hwords, hx, hvalues]
    rfl
  · rw [hquoting.2.2.2.2, hopen]
    rfl

end PackageIndex.Cgo
