/-
  PackageIndex.Proofs.Record.Sorting — grouping embeds sorts them.

  A sorted list is known from the items of each key, in their order (`eq_of_filter_key`).
  A stable sort leaves these as they are, and so does grouping the items of a list and
  listing the groups.
  - `regrouped_eq_mergeSort`: so listing the groups is the stable sort by pattern.
  - `flatEmbeds_embedsByPattern`: and grouping what a table lists gives the table back, unless
    it has a pattern that stands nowhere.
-/

import PackageIndex.Proofs.Record.Texts
import PackageIndex.Proofs.Text.Bytes

namespace PackageIndex

/-! ## Lists in the order of a key -/

section

variable {α : Type} {key : α → String} {l m : List α}

/-- No item of a sorted list comes before the first one. -/
theorem head_le_of_mem {a b : α} (hm : (b :: m).Pairwise fun a b => key a ≤ key b) (h : a ∈ b :: m) : key b ≤ key a := by
  rcases List.mem_cons.mp h with rfl | h
  · exact Std.le_refl _
  · exact (List.pairwise_cons.mp hm).1 a h

theorem mem_of_filter_key {a : α} (h : ∀ k, (l.filter fun a => k = key a) = m.filter fun a => k = key a) (ha : a ∈ l) :
    a ∈ m := by
  have hmem : a ∈ l.filter fun b => key a = key b := List.mem_filter.mpr ⟨ha, decide_eq_true rfl⟩
  rw [h] at hmem
  exact (List.mem_filter.mp hmem).1

/-- A sorted list is known from the items of each key, in their order. -/
theorem eq_of_filter_key (hl : l.Pairwise fun a b => key a ≤ key b) (hm : m.Pairwise fun a b => key a ≤ key b)
    (h : ∀ k, (l.filter fun a => k = key a) = m.filter fun a => k = key a) : l = m := by
  induction l generalizing m with
  | nil =>
    cases m with
    | nil => rfl
    | cons b m => exact nomatch mem_of_filter_key (fun k => (h k).symm) (List.mem_cons_self (a := b))
  | cons a l ih =>
    cases m with
    | nil => exact nomatch mem_of_filter_key h (List.mem_cons_self (a := a))
    | cons b m =>
      have hab : key a = key b := by
        apply Std.le_antisymm
        · exact head_le_of_mem hl (mem_of_filter_key (fun k => (h k).symm) List.mem_cons_self)
        · exact head_le_of_mem hm (mem_of_filter_key h List.mem_cons_self)
      have hheads := h (key a)
      simp only [List.filter_cons, hab, decide_true, if_true] at hheads
      obtain rfl := (List.cons.inj hheads).1
      have htails : ∀ k, (l.filter fun c => k = key c) = m.filter fun c => k = key c := by
        intro k
        by_cases hk : k = key a
        · rw [hk]
          exact (List.cons.inj hheads).2
        · simpa only [List.filter_cons, hk, decide_false, Bool.false_eq_true, if_false] using h k
      rw [ih (List.pairwise_cons.mp hl).2 (List.pairwise_cons.mp hm).2 htails]

end

/-! ## Embeds -/

theorem pairwise_regrouped (l : List Embed) : (regrouped l).Pairwise fun a b => a.pattern ≤ b.pattern := by
  show ((embedsByPattern l).entries.flatMap fun e => embedsOf e.1 e.2).Pairwise fun a b => a.pattern ≤ b.pattern
  rw [List.pairwise_flatMap]
  constructor
  · intro e _
    apply List.pairwise_of_forall_mem_list
    intro a ha b hb
    obtain ⟨_, -, rfl⟩ := List.mem_map.mp ha
    obtain ⟨_, -, rfl⟩ := List.mem_map.mp hb
    exact Std.le_refl e.1
  · refine (embedsByPattern l).sorted.imp ?_
    intro e e' hlt a ha b hb
    obtain ⟨_, -, rfl⟩ := List.mem_map.mp ha
    obtain ⟨_, -, rfl⟩ := List.mem_map.mp hb
    exact Std.le_of_lt hlt

theorem regrouped_eq_mergeSort (l : List Embed) : regrouped l = l.mergeSort fun a b => a.pattern ≤ b.pattern := by
  apply eq_of_filter_key (pairwise_regrouped l) (Utf8.pairwise_mergeSort_key Embed.pattern l)
  intro k
  rw [filter_regrouped, Utf8.filter_mergeSort_key]

/-- What a file lists of grouped embeds is their stable sort by the bytes of their patterns. Grouping what a file lists
gives back its table if, and only if, every pattern of it stands somewhere. -/
theorem flatEmbeds_embedsByPattern (f : FileRecord) (l : List Embed) :
    { f with embeds := embedsByPattern l }.flatEmbeds =
      (l.mergeSort fun a b => Utf8.ofString a.pattern ≤ Utf8.ofString b.pattern) ∧
    (embedsByPattern f.flatEmbeds = f.embeds ↔ ∀ e ∈ f.embeds.entries, e.2 ≠ []) := by
  constructor
  · simp only [Utf8.ofString_le]
    exact regrouped_eq_mergeSort l
  · constructor
    · intro h e he
      rw [← h] at he
      exact positions_ne_nil he
    · exact embedsByPattern_flatEmbeds f

/-- Two embeds of one pattern keep their order, whatever stands between them. -/
example : ({ embeds := embedsByPattern [⟨"b", { line := 2 }⟩, ⟨"a", { line := 1 }⟩, ⟨"b", { line := 1 }⟩] } :
    FileRecord).flatEmbeds = [⟨"a", { line := 1 }⟩, ⟨"b", { line := 2 }⟩, ⟨"b", { line := 1 }⟩] := by decide

end PackageIndex
