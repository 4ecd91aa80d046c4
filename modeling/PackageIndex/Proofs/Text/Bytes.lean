/-
  PackageIndex.Proofs.Text.Bytes — what the bytes of a text keep of it.

  - `length_ofString`: a text takes as many bytes as `Utf8.size` counts.
  - `zero_mem_ofString`: a zero byte is the character U+0000 and nothing else.
  - `ofString_lt`: texts are in the order of their bytes.
-/

import PackageIndex.Proofs.Text.Decoding

namespace PackageIndex.Utf8

/-! ## How many bytes -/

theorem utf8Size_eq (c : Char) : c.utf8Size =
    if c.toNat < 0x80 then 1 else if c.toNat < 0x800 then 2 else if c.toNat < 0x10000 then 3 else 4 := by
  have e : c.val.toNat = c.toNat := rfl
  have le (n : Nat) (hn : n < 0x110000) : c.val ≤ n.toUInt32 ↔ c.toNat < n + 1 := by
    rw [UInt32.le_iff_toNat_le, e]
    simp only [Nat.toUInt32, UInt32.toNat_ofNat']
    omega
  have h1 := le 0x7F (by omega)
  have h2 := le 0x7FF (by omega)
  have h3 := le 0xFFFF (by omega)
  simp only [← h1, ← h2, ← h3]
  rfl

theorem length_encodeChar (c : Char) : (encodeChar c).length = c.utf8Size := by
  rw [utf8Size_eq]
  unfold encodeChar
  simp only []
  split
  · rfl
  split
  · rfl
  split <;> rfl

theorem length_encode (s : List Char) : (encode s).length = size s := by
  induction s with
  | nil => rfl
  | cons c s ih =>
    show (encodeChar c ++ encode s).length = c.utf8Size + size s
    rw [List.length_append, length_encodeChar, ih]

theorem length_ofString (s : String) : (ofString s).length = size s.toList := length_encode s.toList

/-! ## Zero bytes -/

theorem zero_mem_encodeChar (c : Char) : 0 ∈ encodeChar c ↔ c = '\x00' := by
  rw [ascii_mem_encodeChar (by decide), ← Char.toNat_inj]
  rfl

theorem zero_mem_ofString (s : String) : 0 ∈ ofString s ↔ '\x00' ∈ s.toList := by
  unfold ofString encode
  rw [List.mem_flatMap]
  constructor
  · rintro ⟨c, hc, h0⟩
    rw [zero_mem_encodeChar] at h0
    exact h0 ▸ hc
  · intro h
    exact ⟨_, h, (zero_mem_encodeChar _).mpr rfl⟩

/-! ## Order -/

/-- A smaller first byte decides. -/
theorem cons_lt_of_lt {m n : Nat} (h : m < n) (hn : n < 256) (s t : List UInt8) : m.toUInt8 :: s < n.toUInt8 :: t := by
  refine List.cons_lt_cons_iff.mpr (Or.inl ?_)
  rw [UInt8.lt_iff_toNat_lt, toUInt8_toNat (by omega), toUInt8_toNat hn]
  exact h

theorem cons_lt_of_eq {m n : Nat} (h : m = n) {s t : List UInt8} (hst : s < t) : m.toUInt8 :: s < n.toUInt8 :: t :=
  List.cons_lt_cons_iff.mpr (Or.inr ⟨by rw [h], hst⟩)

variable {m n : Nat} (h : m < n) (s t : List UInt8)

include h in
theorem oneTail_lt (e : m / 0x40 = n / 0x40) : (0x80 + m % 0x40).toUInt8 :: s < (0x80 + n % 0x40).toUInt8 :: t :=
  cons_lt_of_lt (by omega) (by omega) s t

include h in
theorem twoTails_lt (e : m / 0x1000 = n / 0x1000) :
    (0x80 + m / 0x40 % 0x40).toUInt8 :: (0x80 + m % 0x40).toUInt8 :: s <
      (0x80 + n / 0x40 % 0x40).toUInt8 :: (0x80 + n % 0x40).toUInt8 :: t := by
  by_cases e1 : m / 0x40 = n / 0x40
  · exact cons_lt_of_eq (by rw [e1]) (oneTail_lt h s t e1)
  · exact cons_lt_of_lt (by omega) (by omega) _ _

include h in
theorem threeTails_lt (e : m / 0x40000 = n / 0x40000) :
    (0x80 + m / 0x1000 % 0x40).toUInt8 :: (0x80 + m / 0x40 % 0x40).toUInt8 :: (0x80 + m % 0x40).toUInt8 :: s <
      (0x80 + n / 0x1000 % 0x40).toUInt8 :: (0x80 + n / 0x40 % 0x40).toUInt8 :: (0x80 + n % 0x40).toUInt8 :: t := by
  by_cases e1 : m / 0x1000 = n / 0x1000
  · exact cons_lt_of_eq (by rw [e1]) (twoTails_lt h s t e1)
  · exact cons_lt_of_lt (by omega) (by omega) _ _

/-- The first byte in which two characters differ decides, so nothing that follows matters. -/
theorem encodeChar_append_lt {c d : Char} (h : c < d) : encodeChar c ++ s < encodeChar d ++ t := by
  have hlt : c.toNat < d.toNat := h
  have hd := toNat_cases d
  unfold encodeChar
  simp only []
  -- a longer character has a greater lead byte; of two as long, the leads or else the tails differ
  by_cases c1 : c.toNat < 0x80
  · rw [if_pos c1]
    split
    · exact cons_lt_of_lt hlt (by omega) _ _
    · split
      · exact cons_lt_of_lt (by omega) (by omega) _ _
      · split <;> exact cons_lt_of_lt (by omega) (by omega) _ _
  have d1 : ¬ d.toNat < 0x80 := by omega
  rw [if_neg c1, if_neg d1]
  by_cases c2 : c.toNat < 0x800
  · rw [if_pos c2]
    split
    · by_cases e : c.toNat / 0x40 = d.toNat / 0x40
      · exact cons_lt_of_eq (by rw [e]) (oneTail_lt hlt s t e)
      · exact cons_lt_of_lt (by omega) (by omega) _ _
    · split <;> exact cons_lt_of_lt (by omega) (by omega) _ _
  have d2 : ¬ d.toNat < 0x800 := by omega
  rw [if_neg c2, if_neg d2]
  by_cases c3 : c.toNat < 0x10000
  · rw [if_pos c3]
    split
    · by_cases e : c.toNat / 0x1000 = d.toNat / 0x1000
      · exact cons_lt_of_eq (by rw [e]) (twoTails_lt hlt s t e)
      · exact cons_lt_of_lt (by omega) (by omega) _ _
    · exact cons_lt_of_lt (by omega) (by omega) _ _
  have d3 : ¬ d.toNat < 0x10000 := by omega
  rw [if_neg c3, if_neg d3]
  by_cases e : c.toNat / 0x40000 = d.toNat / 0x40000
  · exact cons_lt_of_eq (by rw [e]) (threeTails_lt hlt s t e)
  · exact cons_lt_of_lt (by omega) (by omega) _ _

/-- What two byte strings have in front in common does not matter. -/
theorem append_lt_append {l s t : List UInt8} (h : s < t) : l ++ s < l ++ t := by
  induction l with
  | nil => exact h
  | cons a l ih => exact List.cons_lt_cons_iff.mpr (Or.inr ⟨rfl, ih⟩)

theorem encode_lt {s t : List Char} (h : s < t) : encode s < encode t := by
  induction s generalizing t with
  | nil =>
    cases t with
    | nil => exact absurd h (List.lt_irrefl _)
    | cons d t =>
      obtain ⟨a, tail, hd, -⟩ := front_encodeChar d []
      simp only [encode, List.flatMap_nil, List.flatMap_cons, hd, List.cons_append]
      exact List.nil_lt_cons _ _
  | cons c s ih =>
    cases t with
    | nil => exact absurd h (List.not_lt_nil _)
    | cons d t =>
      rcases List.cons_lt_cons_iff.mp h with lt | ⟨rfl, lt⟩
      · exact encodeChar_append_lt _ _ lt
      · exact append_lt_append (ih lt)

/-- Texts are in the order of their bytes, which is that of their characters. -/
theorem ofString_lt (s t : String) : ofString s < ofString t ↔ s < t := by
  refine ⟨fun h => ?_, fun h => encode_lt h⟩
  rcases Std.lt_trichotomy s t with lt | rfl | gt
  · exact lt
  · exact absurd h (List.lt_irrefl _)
  · exact absurd h (List.lt_asymm (encode_lt gt))

theorem ofString_le (s t : String) : ofString s ≤ ofString t ↔ s ≤ t := by
  rw [← Std.not_lt, ← Std.not_lt, ofString_lt]

/-! ## Sorting by a text -/

section

variable {α : Type} (key : α → String)

theorem key_le_trans (a b c : α) (hab : decide (key a ≤ key b) = true) (hbc : decide (key b ≤ key c) = true) :
    decide (key a ≤ key c) = true :=
  decide_eq_true (Std.le_trans (of_decide_eq_true hab) (of_decide_eq_true hbc))

theorem key_le_total (a b : α) : (decide (key a ≤ key b) || decide (key b ≤ key a)) = true := by
  rcases Std.le_total (a := key a) (b := key b) with h | h
  · rw [decide_eq_true h, Bool.true_or]
  · rw [decide_eq_true h, Bool.or_true]

theorem pairwise_mergeSort_key (l : List α) :
    (l.mergeSort fun a b => key a ≤ key b).Pairwise fun a b => key a ≤ key b :=
  (List.pairwise_mergeSort (key_le_trans key) (key_le_total key) l).imp of_decide_eq_true

/-- Sorting leaves items with the same text in their order. -/
theorem filter_mergeSort_key (l : List α) (k : String) :
    ((l.mergeSort fun a b => key a ≤ key b).filter fun a => k = key a) = l.filter fun a => k = key a := by
  have hsorted : (l.filter fun a => k = key a).Pairwise fun a b => decide (key a ≤ key b) = true := by
    apply List.pairwise_of_forall_mem_list
    intro a ha b hb
    have hka : k = key a := of_decide_eq_true (List.mem_filter.mp ha).2
    have hkb : k = key b := of_decide_eq_true (List.mem_filter.mp hb).2
    rw [← hka, ← hkb]
    exact decide_eq_true (Std.le_refl k)
  have hsub := (List.sublist_mergeSort (key_le_trans key) (key_le_total key) hsorted List.filter_sublist).filter
    fun a => decide (k = key a)
  simp only [List.filter_filter, Bool.and_self] at hsub
  have hlength := ((List.mergeSort_perm l fun a b => decide (key a ≤ key b)).filter fun a => decide (k = key a)).length_eq
  exact (hsub.eq_of_length hlength.symm).symm

end

end PackageIndex.Utf8
