/-
  PackageIndex.Proofs.Constraint.Lexing — which texts have which tokens.

  A text is white space and tokens in a row, and a tag takes every tag letter that it can
  reach (`Lexes`).

  - `lexes_iff`: the tokens of a text are read exactly where it can be cut into them.
  - `Lexes.unique`: it can be cut in one way at most.
  - `Lexes.append`: texts put together have their tokens in a row, unless the second begins
    with a letter that a tag at the end of the first could take.
-/

import PackageIndex.Constraint.Token
import PackageIndex.Proofs.Fallible
import PackageIndex.Proofs.Text.Letter
import PackageIndex.Proofs.Text.Parts

namespace PackageIndex.Constraint

open Fallible

def EndsTag (s : List Char) : Prop := ∀ c ∈ s.head?, isTagLetter c = false

def Kind.sign? : Kind → Option (List Char)
  | .opening => some ['(']
  | .closing => some [')']
  | .bang => some ['!']
  | .andAnd => some ['&', '&']
  | .orOr => some ['|', '|']
  | .tag _ => none

inductive Lexes : List Char → List Kind → Prop
  | nil : Lexes [] []
  | blank {c : Char} {s : List Char} {ks : List Kind} : isBlank c = true → Lexes s ks → Lexes (c :: s) ks
  | sign {k : Kind} {sign s : List Char} {ks : List Kind} : k.sign? = some sign → Lexes s ks →
      Lexes (sign ++ s) (k :: ks)
  | tag {name s : List Char} {ks : List Kind} : name ≠ [] → (∀ c ∈ name, isTagLetter c = true) → EndsTag s →
      Lexes s ks → Lexes (name ++ s) (.tag (String.ofList name) :: ks)

/-! ## Letters of a tag -/

theorem not_blank_of_tagLetter {c : Char} (h : isTagLetter c = true) : isBlank c = false := by
  simp only [isTagLetter, Bool.or_eq_true, beq_iff_eq] at h
  rcases h with (h | rfl) | rfl
  · exact not_blank_of_alphanumeric h
  · decide
  · decide

theorem endsTag_dropWhile (s : List Char) : EndsTag (s.dropWhile isTagLetter) := fun _ hc => not_of_head?_dropWhile hc

/-! ## Reading one token -/

section
variable (offset : Nat) (s : List Char)

theorem tokens_nil : tokens offset [] = .ok [] := by
  rw [tokens.eq_def]

theorem tokens_blank {c : Char} (hc : isBlank c = true) : tokens offset (c :: s) = tokens (offset + c.utf8Size) s := by
  rw [tokens.eq_def]
  simp [hc]

theorem tokens_sign {k : Kind} {sign : List Char} (hk : k.sign? = some sign) :
    tokens offset (sign ++ s) = (tokens (offset + sign.length) s).map (⟨k, offset⟩ :: ·) := by
  have hblank : isBlank '(' = false ∧ isBlank ')' = false ∧ isBlank '!' = false ∧ isBlank '&' = false ∧
      isBlank '|' = false := by decide
  cases k with
  | tag name => cases hk
  | _ =>
    cases hk
    rw [List.cons_append, tokens.eq_def]
    simp [hblank]

/-- A letter of a tag is none of the characters that other tokens begin with. -/
theorem ne_of_tagLetter {c d : Char} (hc : isTagLetter c = true) (hd : isTagLetter d = false) : c ≠ d := by
  rintro rfl
  rw [hc] at hd
  cases hd

theorem tokens_tag {name : List Char} (hne : name ≠ []) (hname : ∀ c ∈ name, isTagLetter c = true) (hs : EndsTag s) :
    tokens offset (name ++ s) =
      (tokens (offset + Utf8.size name) s).map (⟨.tag (String.ofList name), offset⟩ :: ·) := by
  cases name with
  | nil => exact absurd rfl hne
  | cons c name =>
    have hc := hname c List.mem_cons_self
    obtain ⟨htake, hdrop⟩ := span_append (fun d hd => hname d (List.mem_cons_of_mem _ hd)) hs
    have h1 : c ≠ '(' := ne_of_tagLetter hc (by decide)
    have h2 : c ≠ ')' := ne_of_tagLetter hc (by decide)
    have h3 : c ≠ '!' := ne_of_tagLetter hc (by decide)
    have h4 : c ≠ '&' := ne_of_tagLetter hc (by decide)
    have h5 : c ≠ '|' := ne_of_tagLetter hc (by decide)
    rw [List.cons_append, tokens.eq_def]
    simp [not_blank_of_tagLetter hc, h1, h2, h3, h4, h5, hc, htake, hdrop]

end

/-! ## Reading a text -/

theorem lexes_of_tokens {offset : Nat} {s : List Char} {ts : List Token} (h : tokens offset s = .ok ts) :
    Lexes s (ts.map Token.kind) := by
  fun_induction tokens offset s generalizing ts with
  | case1 offset =>
    cases h
    exact .nil
  | case2 offset c s hc ih => exact .blank hc (ih h)
  | case3 offset s _ ih =>
    obtain ⟨ts, hts, rfl⟩ := map_eq_ok.mp h
    exact .sign (k := .opening) rfl (ih hts)
  | case4 offset s _ _ ih =>
    obtain ⟨ts, hts, rfl⟩ := map_eq_ok.mp h
    exact .sign (k := .closing) rfl (ih hts)
  | case5 offset s _ _ _ ih =>
    obtain ⟨ts, hts, rfl⟩ := map_eq_ok.mp h
    exact .sign (k := .bang) rfl (ih hts)
  | case6 => cases h
  | case7 offset c s _ _ _ _ hc ih =>
    obtain ⟨ts, hts, rfl⟩ := map_eq_ok.mp h
    rcases hc with rfl | rfl
    · exact .sign (k := .andAnd) rfl (ih hts)
    · exact .sign (k := .orOr) rfl (ih hts)
  | case8 => cases h
  | case9 offset c s _ _ _ _ _ hc name =>
    rename_i ih
    obtain ⟨ts, hts, rfl⟩ := map_eq_ok.mp h
    have hname : ∀ d ∈ c :: s.takeWhile isTagLetter, isTagLetter d = true := by
      intro d hd
      rcases List.mem_cons.mp hd with rfl | hd
      · exact hc
      · exact List.all_eq_true.mp List.all_takeWhile d hd
    have hlexes := Lexes.tag (List.cons_ne_nil _ _) hname (endsTag_dropWhile s) (ih hts)
    rwa [List.cons_append, List.takeWhile_append_dropWhile] at hlexes
  | case10 => cases h

theorem tokens_of_lexes {s : List Char} {ks : List Kind} (h : Lexes s ks) (offset : Nat) :
    ∃ ts, tokens offset s = .ok ts ∧ ts.map Token.kind = ks := by
  induction h generalizing offset with
  | nil => exact ⟨[], tokens_nil offset, rfl⟩
  | blank hc _ ih =>
    rw [tokens_blank offset _ hc]
    exact ih _
  | @sign k sign s _ hk _ ih =>
    obtain ⟨ts, hts, rfl⟩ := ih (offset + sign.length)
    rw [tokens_sign offset s hk, hts]
    exact ⟨⟨k, offset⟩ :: ts, rfl, rfl⟩
  | @tag name s _ hne hname hs _ ih =>
    obtain ⟨ts, hts, rfl⟩ := ih (offset + Utf8.size name)
    rw [tokens_tag offset s hne hname hs, hts]
    exact ⟨⟨.tag (String.ofList name), offset⟩ :: ts, rfl, rfl⟩

/-- The tokens of a text are read exactly where it can be cut into them. -/
theorem lexes_iff {s : List Char} {ks : List Kind} (offset : Nat) :
    Lexes s ks ↔ ∃ ts, tokens offset s = .ok ts ∧ ts.map Token.kind = ks := by
  constructor
  · intro h
    exact tokens_of_lexes h offset
  · rintro ⟨ts, hts, rfl⟩
    exact lexes_of_tokens hts

theorem Lexes.unique {s : List Char} {ks ls : List Kind} (hk : Lexes s ks) (hl : Lexes s ls) : ks = ls := by
  obtain ⟨ts, hts, rfl⟩ := tokens_of_lexes hk 0
  obtain ⟨us, hus, rfl⟩ := tokens_of_lexes hl 0
  rw [hts] at hus
  cases hus
  rfl

/-! ## Texts in a row -/

theorem Lexes.append {s t : List Char} {ks ls : List Kind} (hs : Lexes s ks) (ht : Lexes t ls) (hend : EndsTag t) :
    Lexes (s ++ t) (ks ++ ls) := by
  induction hs with
  | nil => exact ht
  | blank hc _ ih => exact .blank hc ih
  | sign hk _ ih =>
    rw [List.append_assoc]
    exact .sign hk ih
  | @tag name s _ hne hname hs _ ih =>
    rw [List.append_assoc]
    refine .tag hne hname ?_ ih
    cases s with
    | nil => exact hend
    | cons c s => exact hs

end PackageIndex.Constraint
