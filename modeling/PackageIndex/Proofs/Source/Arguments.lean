/-
  PackageIndex.Proofs.Source.Arguments — patterns that are written one behind the other are read as these.

  A pattern is written bare, which it is up to the next white space, or by a literal, which
  ends where it does in a source. Each of them is read with whatever may follow, and leaves
  off at the byte behind it, where the next one is read.

  - `literalLength?_of_some`: a literal that stands for something ends where it is taken to end.
  - `embedPatterns_bare`, `embedPatterns_literal`: one pattern, and where the next one is looked for.
  - `embedPatterns_written`: all of them, each at the byte where it is written.
-/

import PackageIndex.Proofs.Source.Escapes
import PackageIndex.Source.Embed

namespace PackageIndex.Source

/-! ## Written patterns -/

inductive WrittenPattern where
  | bare (s : List Char) (h : s ≠ [] ∧ (∀ c ∈ s, isBlank c = false) ∧ s.head? ≠ some '"' ∧ s.head? ≠ some '`')
  | literal (w : WrittenLiteral)

namespace WrittenPattern

def text : WrittenPattern → List Char
  | bare s _ => s
  | literal w => w.text

def value : WrittenPattern → List Char
  | bare s _ => s
  | literal w => w.value

end WrittenPattern

structure WrittenArgument where
  gap : List Char
  pattern : WrittenPattern
  isGap : gap ≠ [] ∧ ∀ c ∈ gap, isBlank c = true

def WrittenArgument.text (a : WrittenArgument) : List Char := a.gap ++ a.pattern.text

structure WrittenArguments where
  arguments : List WrittenArgument
  trailing : List Char
  isTrailing : ∀ c ∈ trailing, isBlank c = true

def WrittenArguments.text (as : WrittenArguments) : List Char := as.arguments.flatMap WrittenArgument.text ++ as.trailing

/-- Each pattern with the byte at which it is written, where the white space before the first begins at `offset`. -/
def patternsAt (offset : Nat) : List WrittenArgument → List (Nat × List Char)
  | [] => []
  | a :: as => (offset + Utf8.size a.gap, a.pattern.value) :: patternsAt (offset + Utf8.size a.text) as

/-! ## Literals -/

variable {s rest literal value body : List Char} {c : Char}

/-- Where a literal ends does not hang on whether line feeds may stand in it. -/
theorem literalLength?_of_interpretedLength? {n : Nat} (h : interpretedLength? s = some n) : literalLength? '"' s = some n := by
  fun_induction interpretedLength? s generalizing n with
  | case1 => cases h
  | case2 => cases h
  | case3 c s ih =>
    obtain ⟨m, hm, rfl⟩ := Option.map_eq_some_iff.mp h
    rw [literalLength?, if_pos ⟨rfl, rfl⟩, ih hm]
    rfl
  | case4 => cases h
  | case5 s =>
    cases h
    cases s with
    | nil => rfl
    | cons d s => rfl
  | case6 c s hslash hescape hfeed hquote ih =>
    obtain ⟨m, hm, rfl⟩ := Option.map_eq_some_iff.mp h
    cases s with
    | nil => cases hm
    | cons d s =>
      have hc : c ≠ '\\' := fun hc => hescape d s hc rfl
      rw [literalLength?, if_neg (fun h => hc h.1), if_neg hquote, ih hm]
      rfl

theorem literalLength?_raw (h : '`' ∉ body) (rest : List Char) :
    literalLength? '`' (body ++ '`' :: rest) = some (body.length + 1) := by
  induction body with
  | nil => cases rest <;> rfl
  | cons c body ih =>
    rw [List.mem_cons, not_or] at h
    obtain ⟨d, s, hs⟩ := List.exists_cons_of_ne_nil (List.append_ne_nil_of_right_ne_nil body (List.cons_ne_nil '`' rest))
    have hrest := ih h.2
    rw [hs] at hrest
    rw [List.cons_append, hs, literalLength?, if_neg (by simp), if_neg (Ne.symm h.1), hrest]
    rfl

/-- A literal that stands for something ends where it is taken to end, whatever follows. -/
theorem literalLength?_of_some (h : literalText? (c :: s) = some value) (rest : List Char) :
    (c = '"' ∨ c = '`') ∧ literalLength? c (s ++ rest) = some s.length := by
  obtain ⟨body, hbody, hvalue⟩ | ⟨body, hbody, hquote, -⟩ := literalText?_eq_some.mp h
  · obtain ⟨rfl, rfl⟩ := List.cons.inj hbody
    rw [List.append_assoc, List.singleton_append, List.length_append]
    exact ⟨.inl rfl, literalLength?_of_interpretedLength? (interpretedLength?_of_unescape? hvalue rest)⟩
  · obtain ⟨rfl, rfl⟩ := List.cons.inj hbody
    rw [List.append_assoc, List.singleton_append, List.length_append]
    exact ⟨.inr rfl, literalLength?_raw hquote rest⟩

/-! ## Patterns -/

theorem embedPatterns_blanks {blanks : List Char} (h : ∀ c ∈ blanks, isBlank c = true) (offset : Nat) (s : List Char) :
    embedPatterns offset (blanks ++ s) = embedPatterns (offset + Utf8.size blanks) s := by
  induction blanks generalizing offset with
  | nil => rfl
  | cons c blanks ih =>
    obtain ⟨hc, hblanks⟩ := List.forall_mem_cons.mp h
    rw [List.cons_append, embedPatterns, if_pos hc, ih hblanks, Nat.add_assoc]
    rfl

theorem embedPatterns_literal (h : literalText? literal = some value) (offset : Nat) (rest : List Char) :
    embedPatterns offset (literal ++ rest) = (offset, value) :: embedPatterns (offset + Utf8.size literal) rest := by
  cases literal with
  | nil => cases h
  | cons c s =>
    obtain ⟨hquote, hlength⟩ := literalLength?_of_some h rest
    have hblank : isBlank c = false := by rcases hquote with rfl | rfl <;> decide
    rw [List.cons_append, embedPatterns, if_neg (by simp [hblank]), if_pos hquote, hlength]
    simp only [List.take_left, List.drop_left, h]

theorem embedPatterns_bare (hs : s ≠ [] ∧ (∀ c ∈ s, isBlank c = false) ∧ s.head? ≠ some '"' ∧ s.head? ≠ some '`')
    (hrest : Stops (!isBlank ·) rest) (offset : Nat) :
    embedPatterns offset (s ++ rest) = (offset, s) :: embedPatterns (offset + Utf8.size s) rest := by
  obtain ⟨hne, hblank, hquote, hback⟩ := hs
  cases s with
  | nil => exact absurd rfl hne
  | cons c s =>
    obtain ⟨hc, hs⟩ := List.forall_mem_cons.mp hblank
    have hword : ∀ d ∈ s, (!isBlank d) = true := fun d hd => by rw [hs d hd]; rfl
    obtain ⟨htake, hdrop⟩ := span_append hword hrest
    have hbare : ¬ (c = '"' ∨ c = '`') := by simpa using And.intro hquote hback
    rw [List.cons_append, embedPatterns, if_neg (by simp [hc]), if_neg hbare, htake, hdrop]

/-! ## Arguments -/

/-- White space, or the end, is what follows a pattern. -/
theorem stops_arguments (as : WrittenArguments) : Stops (!isBlank ·) as.text := by
  intro c hc
  have hblank : isBlank c = true := by
    cases hargs : as.arguments with
    | nil =>
      rw [WrittenArguments.text, hargs, List.flatMap_nil, List.nil_append] at hc
      exact as.isTrailing c (List.mem_of_mem_head? hc)
    | cons a more =>
      obtain ⟨d, gap, hgap⟩ := List.exists_cons_of_ne_nil a.isGap.1
      rw [WrittenArguments.text, hargs, List.flatMap_cons, WrittenArgument.text, hgap] at hc
      obtain rfl : d = c := Option.some.inj hc
      exact a.isGap.2 d (by rw [hgap]; exact List.mem_cons_self)
  simp [hblank]

/-- One pattern, with what follows it. -/
theorem embedPatterns_pattern (p : WrittenPattern) (hrest : Stops (!isBlank ·) rest) (offset : Nat) :
    embedPatterns offset (p.text ++ rest) = (offset, p.value) :: embedPatterns (offset + Utf8.size p.text) rest := by
  cases p with
  | bare s h => exact embedPatterns_bare h hrest offset
  | literal w => exact embedPatterns_literal (literalText?_written w) offset rest

/-- Patterns are read as they were written, each at its byte. -/
theorem embedPatterns_written (as : WrittenArguments) (offset : Nat) :
    embedPatterns offset as.text = patternsAt offset as.arguments := by
  obtain ⟨args, trailing, htrailing⟩ := as
  induction args generalizing offset with
  | nil =>
    have hblanks := embedPatterns_blanks htrailing offset []
    rw [List.append_nil, embedPatterns] at hblanks
    exact hblanks
  | cons a args ih =>
    have htext : WrittenArguments.text ⟨a :: args, trailing, htrailing⟩ =
        a.gap ++ (a.pattern.text ++ WrittenArguments.text ⟨args, trailing, htrailing⟩) := by
      simp only [WrittenArguments.text, WrittenArgument.text, List.flatMap_cons, List.append_assoc]
    rw [htext, embedPatterns_blanks a.isGap.2, embedPatterns_pattern a.pattern (stops_arguments _), ih, patternsAt,
      WrittenArgument.text, Utf8.size_append, Nat.add_assoc]

def mixedArguments : WrittenArguments where
  arguments := [
    ⟨[' '], .bare ['é', '*'] ⟨by decide, List.forall_mem_cons.mpr ⟨by decide, List.forall_mem_singleton.mpr (by decide)⟩, by decide⟩,
      by decide, List.forall_mem_singleton.mpr (by decide)⟩,
    ⟨['\u3000'], .literal (.raw "a \"b".toList (by decide)), by decide, List.forall_mem_singleton.mpr (by decide)⟩,
    ⟨[' '], .literal (.interpreted [.plain 'c' (by decide), .plain ' ' (by decide), .named 'n' '\n' (by decide),
      .named '\\' '\\' (by decide)]), by decide, List.forall_mem_singleton.mpr (by decide)⟩]
  trailing := [' ']
  isTrailing := List.forall_mem_singleton.mpr (by decide)

example : embedPatterns 0 mixedArguments.text = [(1, "é*".toList), (7, "a \"b".toList), (14, "c \n\\".toList)] := by
  decide +kernel

end PackageIndex.Source
