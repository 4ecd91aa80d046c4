/-
  PackageIndex.Proofs.Text.Parts — what a text is cut into.

  - Cutting and trimming give back characters of the text and no others, and none of those that
    were to go where they cut (`not_of_mem_splitOnP`, `not_of_getLast?_trimEnd`).
  - What is taken up to a text is all that stands before it (`span_append`, `not_of_head?_dropWhile`).
  - A mark is found where it stands first (`cutAt?_append`, `cutAt?_pair`, `not_isInfix_of_cutAt?`).
  - `NulFree`: a text with no zero character, which can be ended by a zero byte.
-/

import Mathlib.Data.List.Infix
import Mathlib.Data.List.TakeWhile
import PackageIndex.Text.Blank
import PackageIndex.Text.Cut

namespace PackageIndex

/-! ## Parts -/

section

variable {α : Type} {p : α → Bool} {l : List α}

theorem trimEnd_isPrefix (p : α → Bool) (l : List α) : trimEnd p l <+: l := by
  have hsuffix := List.dropWhile_suffix p (l := l.reverse)
  rw [← List.reverse_prefix, List.reverse_reverse] at hsuffix
  exact hsuffix

theorem trimStart_suffix (p : α → Bool) (l : List α) : trimStart p l <:+ l := List.dropWhile_suffix p

theorem trim_subset (p : α → Bool) (l : List α) : trim p l ⊆ l :=
  List.Subset.trans (trimEnd_isPrefix p _).subset (trimStart_suffix p l).subset

theorem isInfix_of_mem_flatMap {β : Type} {f : α → List β} {a : α} (h : a ∈ l) : f a <:+: l.flatMap f := by
  rw [List.flatMap_def]
  exact List.infix_of_mem_flatten (List.mem_map_of_mem h)

/-- The pieces hold what is in the list and is not cut at. -/
theorem of_mem_splitOnP {piece : List α} (h : piece ∈ l.splitOnP p) : ∀ a ∈ piece, a ∈ l ∧ p a = false := by
  induction l generalizing piece with
  | nil =>
    rw [List.splitOnP_nil, List.mem_singleton] at h
    simp [h]
  | cons b l ih =>
    have hrest {piece : List α} (h : piece ∈ l.splitOnP p) : ∀ a ∈ piece, a ∈ b :: l ∧ p a = false :=
      fun a ha => (ih h a ha).imp_left (List.mem_cons_of_mem b)
    rw [List.splitOnP_cons_eq_if_modifyHead] at h
    obtain ⟨first, more, hmore⟩ := List.exists_cons_of_ne_nil (List.splitOnP_ne_nil p l)
    rw [hmore] at h hrest
    split at h
    · rcases List.mem_cons.mp h with rfl | h
      · simp
      · exact hrest h
    · rename_i hb
      rcases List.mem_cons.mp h with rfl | h
      · exact List.forall_mem_cons.mpr ⟨⟨List.mem_cons_self, by simpa using hb⟩, hrest List.mem_cons_self⟩
      · exact hrest (List.mem_cons_of_mem first h)

theorem subset_of_mem_splitOnP {piece : List α} (h : piece ∈ l.splitOnP p) : piece ⊆ l :=
  fun a ha => (of_mem_splitOnP h a ha).1

theorem not_of_mem_splitOnP {piece : List α} (h : piece ∈ l.splitOnP p) : ∀ a ∈ piece, p a = false :=
  fun a ha => (of_mem_splitOnP h a ha).2

theorem trimEnd_of_getLast? (h : ∀ a ∈ l.getLast?, p a = false) : trimEnd p l = l := by
  have hdrop : l.reverse.dropWhile p = l.reverse := by
    cases hr : l.reverse with
    | nil => rfl
    | cons a r =>
      have ha : a ∈ l.getLast? := by rw [← List.head?_reverse, hr]; rfl
      simp [h a ha]
  rw [trimEnd, hdrop, List.reverse_reverse]

theorem trimEnd_append_of_forall {more : List α} (h : ∀ a ∈ more, p a = true) : trimEnd p (l ++ more) = trimEnd p l := by
  have hmore : ∀ a ∈ more.reverse, p a = true := fun a ha => h a (List.mem_reverse.mp ha)
  rw [trimEnd, List.reverse_append, List.dropWhile_append_of_pos hmore, trimEnd]

theorem trimEnd_eq_nil (h : ∀ a ∈ l, p a = true) : trimEnd p l = [] := by
  simpa [trimEnd] using trimEnd_append_of_forall (l := []) h

/-- Nothing goes up to a place that stays. -/
theorem trimEnd_append_cons {a : α} (ha : p a = false) (l more : List α) :
    trimEnd p (l ++ a :: more) = l ++ a :: trimEnd p more := by
  rw [trimEnd, trimEnd, List.reverse_append, List.reverse_cons, List.append_assoc, List.dropWhile_append]
  split
  · rename_i hnil
    rw [List.isEmpty_iff.mp hnil]
    simp [ha]
  · simp

/-- What is trimmed off the end is all to go. -/
theorem exists_eq_trimEnd_append (p : α → Bool) (l : List α) : ∃ more, (∀ a ∈ more, p a = true) ∧ l = trimEnd p l ++ more := by
  refine ⟨(l.reverse.takeWhile p).reverse, fun a ha => List.mem_takeWhile_imp (List.mem_reverse.mp ha), ?_⟩
  rw [trimEnd, ← List.reverse_append, List.takeWhile_append_dropWhile, List.reverse_reverse]

/-- What is taken while `p` holds is all that stands before a text that begins with none of it. -/
theorem span_append {rest : List α} (hl : ∀ a ∈ l, p a = true) (hrest : ∀ a ∈ rest.head?, p a = false) :
    (l ++ rest).takeWhile p = l ∧ (l ++ rest).dropWhile p = rest := by
  rw [List.takeWhile_append_of_pos hl, List.dropWhile_append_of_pos hl]
  cases rest with
  | nil => simp
  | cons a rest =>
    have ha : p a = false := hrest a rfl
    simp [ha]

theorem span_ne_append [DecidableEq α] {a : α} {rest : List α} (hl : a ∉ l) (hrest : ∀ b ∈ rest.head?, b = a) :
    (l ++ rest).takeWhile (· ≠ a) = l ∧ (l ++ rest).dropWhile (· ≠ a) = rest := by
  have hne : ∀ b ∈ l, decide (b ≠ a) = true := by
    intro b hb
    simp only [decide_eq_true_eq]
    rintro rfl
    exact hl hb
  exact span_append hne (fun b hb => by simpa using hrest b hb)

theorem not_mem_takeWhile_ne [DecidableEq α] (a : α) (l : List α) : a ∉ l.takeWhile (· ≠ a) := by
  intro hmem
  simpa using List.mem_takeWhile_imp hmem

theorem not_of_head?_dropWhile {a : α} (h : (l.dropWhile p).head? = some a) : p a = false := by
  have hhead := List.head?_dropWhile_not p l
  rw [h] at hhead
  simpa using hhead

theorem eq_of_head?_dropWhile_ne [DecidableEq α] {a b : α} (h : (l.dropWhile (· ≠ a)).head? = some b) : b = a := by
  simpa using not_of_head?_dropWhile h

theorem not_of_head?_trim {a : α} (h : (trim p l).head? = some a) : p a = false := by
  obtain ⟨more, hmore⟩ := trimEnd_isPrefix p (trimStart p l)
  have hstart : (trimStart p l).head? = some a := by
    rw [← hmore, List.head?_append, show (trimEnd p (trimStart p l)).head? = some a from h]
    rfl
  exact not_of_head?_dropWhile hstart

theorem not_of_getLast?_trimEnd {a : α} (h : (trimEnd p l).getLast? = some a) : p a = false := by
  rw [trimEnd, List.getLast?_reverse] at h
  exact not_of_head?_dropWhile h

theorem mem_of_mem_intersperse {sep a : α} (h : a ∈ l.intersperse sep) : a = sep ∨ a ∈ l := by
  fun_induction List.intersperse sep l with
  | case1 => cases h
  | case2 b => exact Or.inr h
  | case3 b l _ ih =>
    rcases List.mem_cons.mp h with rfl | h
    · exact Or.inr List.mem_cons_self
    · rcases List.mem_cons.mp h with rfl | h
      · exact Or.inl rfl
      · exact (ih h).imp_right (List.mem_cons_of_mem _)

theorem mem_of_mem_intercalate {sep : List α} {chunks : List (List α)} {a : α} (h : a ∈ sep.intercalate chunks) :
    a ∈ sep ∨ ∃ chunk ∈ chunks, a ∈ chunk := by
  rw [List.intercalate, List.mem_flatten] at h
  obtain ⟨chunk, hchunk, ha⟩ := h
  rcases mem_of_mem_intersperse hchunk with rfl | hchunk
  · exact Or.inl ha
  · exact Or.inr ⟨chunk, hchunk, ha⟩

theorem isPrefixOf?_append [BEq α] [LawfulBEq α] (l rest : List α) : l.isPrefixOf? (l ++ rest) = some rest := by
  induction l with
  | nil => rfl
  | cons a l ih =>
    show (if a == a then l.isPrefixOf? (l ++ rest) else none) = some rest
    rw [if_pos (beq_self_eq_true a), ih]

/-- A mark is found where it stands, if its first character stands nowhere before. -/
theorem cutAt?_append [BEq α] [LawfulBEq α] {a : α} (hl : a ∉ l) (mark rest : List α) :
    cutAt? (a :: mark) (l ++ (a :: mark ++ rest)) = some (l, rest) := by
  induction l with
  | nil =>
    have hfound : (a :: mark).isPrefixOf? (a :: mark ++ rest) = some rest := isPrefixOf?_append _ _
    rw [List.nil_append, List.cons_append, cutAt?, ← List.cons_append, hfound]
  | cons b l ih =>
    have hb : (a == b) = false := beq_false_of_ne fun h => hl (h ▸ List.mem_cons_self)
    have hmiss : (a :: mark).isPrefixOf? (b :: (l ++ (a :: mark ++ rest))) = none := by
      show (if a == b then mark.isPrefixOf? (l ++ (a :: mark ++ rest)) else none) = none
      rw [hb]
      rfl
    rw [List.cons_append, cutAt?, hmiss]
    simp only [ih fun h => hl (List.mem_cons_of_mem b h), Option.map_some]

/-- A mark of two characters is found where it stands first. -/
theorem cutAt?_pair [BEq α] [LawfulBEq α] {a b : α} (hab : a ≠ b) (hl : ¬ [a, b] <:+: l) (rest : List α) :
    cutAt? [a, b] (l ++ a :: b :: rest) = some (l, rest) := by
  induction l with
  | nil => exact cutAt?_append (l := []) List.not_mem_nil [b] rest
  | cons c l ih =>
    have hmiss : [a, b].isPrefixOf? (c :: (l ++ a :: b :: rest)) = none := by
      cases h : [a, b].isPrefixOf? (c :: (l ++ a :: b :: rest)) with
      | none => rfl
      | some more =>
        obtain ⟨rfl, hnext⟩ := List.cons.inj (append_of_isPrefixOf? h)
        cases l with
        | nil => exact absurd (List.cons.inj hnext).1.symm hab
        | cons d l =>
          obtain ⟨rfl, -⟩ := List.cons.inj hnext
          exact absurd (List.prefix_append [a, b] l).isInfix hl
    have hrest : ¬ [a, b] <:+: l := fun h => hl (h.trans (List.suffix_cons c l).isInfix)
    rw [List.cons_append, cutAt?, hmiss]
    simp only [ih hrest, Option.map_some]

/-- The mark does not stand before the place where it was found. -/
theorem not_isInfix_of_cutAt? [BEq α] [LawfulBEq α] {a : α} {mark before after : List α}
    (h : cutAt? (a :: mark) l = some (before, after)) : ¬ (a :: mark) <:+: before := by
  induction l generalizing before with
  | nil => cases h
  | cons b l ih =>
    rw [cutAt?] at h
    split at h
    · cases h
      exact fun hmark => List.cons_ne_nil a mark (List.eq_nil_of_infix_nil hmark)
    · rename_i hmiss
      obtain ⟨⟨front, back⟩, hcut, he⟩ := Option.map_eq_some_iff.mp h
      cases he
      intro hmark
      rcases List.infix_cons_iff.mp hmark with hfront | hfront
      · obtain ⟨more, hmore⟩ := hfront
        have hwhole : b :: l = a :: mark ++ (more ++ (a :: mark ++ after)) := by
          rw [← List.append_assoc, hmore, ← append_of_cutAt? hcut]
          simp
        rw [hwhole, isPrefixOf?_append] at hmiss
        cases hmiss
      · exact ih hcut hfront

theorem subset_of_mem_words {s word : List Char} (h : word ∈ words s) : word ⊆ s :=
  subset_of_mem_splitOnP (List.mem_filter.mp h).1

theorem subset_of_cutAt? [BEq α] [LawfulBEq α] {mark before after : List α} (h : cutAt? mark l = some (before, after)) :
    before ⊆ l := by
  rw [← append_of_cutAt? h, List.append_assoc]
  exact List.subset_append_left _ _

end

/-! ## The zero character -/

/-- A text that can end with a zero byte. -/
def NulFree (s : String) : Prop := '\x00' ∉ s.toList

instance (s : String) : Decidable (NulFree s) := inferInstanceAs (Decidable ('\x00' ∉ s.toList))

theorem nulFree_empty : NulFree "" := by decide

@[simp] theorem nulFree_ofList {s : List Char} : NulFree (String.ofList s) ↔ '\x00' ∉ s := by simp [NulFree]

@[simp] theorem nulFree_append {s t : String} : NulFree (s ++ t) ↔ NulFree s ∧ NulFree t := by simp [NulFree]

theorem nulFree_toString (n : Nat) : NulFree (toString n) := by
  intro h
  rw [Nat.toString_eq_repr, Nat.toList_repr] at h
  exact absurd (Nat.isDigit_of_mem_toDigits (by decide) (by decide) h) (by decide)

theorem nulFree_intercalate {sep : String} {l : List String} (hsep : NulFree sep) (hl : ∀ s ∈ l, NulFree s) :
    NulFree (sep.intercalate l) := by
  intro h
  rw [String.toList_intercalate] at h
  rcases mem_of_mem_intercalate h with h | ⟨piece, hpiece, h⟩
  · exact hsep h
  · obtain ⟨s, hs, rfl⟩ := List.mem_map.mp hpiece
    exact hl s hs h

end PackageIndex
