/-
  PackageIndex.Proofs.Text.Decoding — what bytes are read as.

  - `encode_of_decode`: a text that was read is written as the bytes it was read from, so that
    what stands in the one stands in the other.
  - `encode_lossy`: reading broken bytes too leaves nothing out but where it puts U+FFFD.
  - `lossy_append_ascii`: a byte of ASCII ends what is broken, so the bytes on either side are read by themselves.
-/

import PackageIndex.Text.Utf8

namespace PackageIndex.Utf8

/-! ## One character -/

theorem secondSpan_eq_some {n least most : Nat} (h : secondSpan n = some (least, most)) :
    0xC2 ≤ n ∧ n ≤ 0xF4 ∧ 0x80 ≤ least ∧ most ≤ 0xBF ∧ (n = 0xE0 → 0xA0 ≤ least) ∧ (n = 0xED → most ≤ 0x9F) ∧
      (n = 0xF0 → 0x90 ≤ least) ∧ (n = 0xF4 → most ≤ 0x8F) := by
  unfold secondSpan at h
  repeat' split at h
  all_goals cases h
  all_goals omega

theorem toNat_ofNat {n : Nat} (h : n < 0xD800 ∨ 0xE000 ≤ n ∧ n < 0x110000) : (Char.ofNat n).toNat = n := by
  have hvalid : n.isValidChar := by
    unfold Nat.isValidChar
    omega
  rw [Char.ofNat, dif_pos hvalid]
  rfl

theorem toUInt8_eq {n : Nat} {a : UInt8} (h : n = a.toNat) : n.toUInt8 = a := by
  subst h
  simp

theorem encodeChar_one {a : UInt8} (ha : a.toNat < 0x80) : encodeChar (Char.ofNat a.toNat) = [a] := by
  have hnat : (Char.ofNat a.toNat).toNat = a.toNat := toNat_ofNat (by omega)
  simp [encodeChar, hnat, ha]

theorem encodeChar_two {a b : UInt8} (ha : 0xC2 ≤ a.toNat ∧ a.toNat < 0xE0) (hb : IsTail b) :
    encodeChar (Char.ofNat (point2 a b)) = [a, b] := by
  have hnat : (Char.ofNat (point2 a b)).toNat = point2 a b := toNat_ofNat (by unfold point2; omega)
  simp only [encodeChar, hnat]
  unfold point2
  rw [if_neg (by omega), if_pos (by omega), toUInt8_eq (a := a) (by omega), toUInt8_eq (a := b) (by omega)]

theorem encodeChar_three {a b c : UInt8} (ha : 0xE0 ≤ a.toNat ∧ a.toNat < 0xF0) (hb : IsTail b) (hc : IsTail c)
    (hlow : a.toNat = 0xE0 → 0xA0 ≤ b.toNat) (hsurrogate : a.toNat = 0xED → b.toNat ≤ 0x9F) :
    encodeChar (Char.ofNat (point3 a b c)) = [a, b, c] := by
  have hnat : (Char.ofNat (point3 a b c)).toNat = point3 a b c := toNat_ofNat (by unfold point3; omega)
  simp only [encodeChar, hnat]
  unfold point3
  rw [if_neg (by omega), if_neg (by omega), if_pos (by omega), toUInt8_eq (a := a) (by omega),
    toUInt8_eq (a := b) (by omega), toUInt8_eq (a := c) (by omega)]

theorem encodeChar_four {a b c d : UInt8} (ha : 0xF0 ≤ a.toNat ∧ a.toNat ≤ 0xF4) (hb : IsTail b) (hc : IsTail c)
    (hd : IsTail d) (hlow : a.toNat = 0xF0 → 0x90 ≤ b.toNat) (hhigh : a.toNat = 0xF4 → b.toNat ≤ 0x8F) :
    encodeChar (Char.ofNat (point4 a b c d)) = [a, b, c, d] := by
  have hnat : (Char.ofNat (point4 a b c d)).toNat = point4 a b c d := toNat_ofNat (by unfold point4; omega)
  simp only [encodeChar, hnat]
  unfold point4
  rw [if_neg (by omega), if_neg (by omega), if_neg (by omega), toUInt8_eq (a := a) (by omega),
    toUInt8_eq (a := b) (by omega), toUInt8_eq (a := c) (by omega), toUInt8_eq (a := d) (by omega)]

/-- A character is written as the bytes that it was read from. -/
theorem encodeChar_of_front {a : UInt8} {rest : List UInt8} {c : Char} {n : Nat} (h : front a rest = .char c n) :
    encodeChar c ++ rest.drop (n - 1) = a :: rest := by
  unfold front at h
  split at h
  · rename_i ha
    obtain ⟨hc, hn⟩ := Front.char.inj h
    rw [← hc, ← hn, encodeChar_one ha]
    rfl
  · split at h
    · cases h
    · cases h
    · rename_i least most b rest hspan
      obtain ⟨h1, h2, h3, h4, h5, h6, h7, h8⟩ := secondSpan_eq_some hspan
      split at h
      · cases h
      · rename_i hb
        split at h
        · obtain ⟨hc, hn⟩ := Front.char.inj h
          rw [← hc, ← hn, encodeChar_two (by omega) (by omega)]
          rfl
        · split at h
          · cases h
          · split at h
            · cases h
            · rename_i hthird
              split at h
              · obtain ⟨hc, hn⟩ := Front.char.inj h
                rw [← hc, ← hn, encodeChar_three (by omega) (by omega) (Decidable.not_not.mp hthird) (by omega) (by omega)]
                rfl
              · split at h
                · cases h
                · split at h
                  · cases h
                  · rename_i hfourth
                    obtain ⟨hc, hn⟩ := Front.char.inj h
                    rw [← hc, ← hn, encodeChar_four (by omega) (by omega) (Decidable.not_not.mp hthird) (Decidable.not_not.mp hfourth)
                      (by omega) (by omega)]
                    rfl

/-- What follows is not looked at, unless the bytes end inside a sequence. -/
theorem front_append {a : UInt8} {rest : List UInt8} (more : List UInt8) (h : front a rest ≠ .broken none) :
    front a (rest ++ more) = front a rest := by
  by_cases ha : a.toNat < 0x80
  · simp only [front, if_pos ha]
  · cases hspan : secondSpan a.toNat with
    | none => simp only [front, if_neg ha, hspan]
    | some span =>
      rcases rest with _ | ⟨b, _ | ⟨c, _ | ⟨d, rest⟩⟩⟩
      all_goals simp only [front, if_neg ha, hspan, List.cons_append, List.nil_append] at h ⊢
      all_goals grind

/-- A byte of ASCII ends the sequence that the bytes in front of it have begun. -/
theorem front_append_ascii {a x : UInt8} {rest : List UInt8} (more : List UInt8) (hx : x.toNat < 0x80)
    (h : front a rest = .broken none) : front a (rest ++ x :: more) = .broken (some (rest.length + 1)) := by
  have htail : ¬ IsTail x := fun h => by omega
  by_cases ha : a.toNat < 0x80
  · simp only [front, if_pos ha] at h
    cases h
  · cases hspan : secondSpan a.toNat with
    | none =>
      simp only [front, if_neg ha, hspan] at h
      cases h
    | some span =>
      have hleast := secondSpan_eq_some hspan
      rcases rest with _ | ⟨b, _ | ⟨c, _ | ⟨d, rest⟩⟩⟩
      all_goals simp only [front, if_neg ha, hspan, List.cons_append, List.nil_append] at h ⊢
      all_goals grind

theorem length_of_front {a : UInt8} {rest : List UInt8} {n : Nat}
    (h : (∃ c, front a rest = .char c n) ∨ front a rest = .broken (some n)) : n - 1 ≤ rest.length := by
  by_cases ha : a.toNat < 0x80
  · simp only [front, if_pos ha] at h
    grind
  · cases hspan : secondSpan a.toNat with
    | none =>
      simp only [front, if_neg ha, hspan] at h
      grind
    | some span =>
      rcases rest with _ | ⟨b, _ | ⟨c, _ | ⟨d, rest⟩⟩⟩
      all_goals simp only [front, if_neg ha, hspan] at h ⊢
      all_goals grind

/-- The lead bytes and tails of longer characters are all above 0x7F. -/
theorem ascii_mem_encodeChar {c : Char} {b : UInt8} (hb : b.toNat < 0x80) : b ∈ encodeChar c ↔ c.toNat = b.toNat := by
  have hc := toNat_cases c
  have hbyte {n : Nat} (hn : n < 256) : b = n.toUInt8 ↔ n = b.toNat := by
    constructor
    · rintro rfl
      rw [toUInt8_toNat hn]
    · rintro rfl
      simp
  unfold encodeChar
  simp only []
  split
  · rw [List.mem_singleton, hbyte (by omega)]
  · split
    · simp only [List.mem_cons, List.not_mem_nil, or_false]
      rw [hbyte (by omega), hbyte (by omega)]
      omega
    · split
      · simp only [List.mem_cons, List.not_mem_nil, or_false]
        rw [hbyte (by omega), hbyte (by omega), hbyte (by omega)]
        omega
      · simp only [List.mem_cons, List.not_mem_nil, or_false]
        rw [hbyte (by omega), hbyte (by omega), hbyte (by omega), hbyte (by omega)]
        omega

/-! ## Texts -/

theorem encode_of_decodeFrom {start : Nat} {bytes : List UInt8} {s : List Char} (h : decodeFrom start bytes = .ok s) :
    encode s = bytes := by
  fun_induction decodeFrom start bytes generalizing s with
  | case1 =>
    cases h
    rfl
  | case2 start a rest c n hfront ih =>
    cases hrest : decodeFrom (start + n) (rest.drop (n - 1)) with
    | error e =>
      rw [hrest] at h
      cases h
    | ok t =>
      rw [hrest] at h
      cases h
      rw [← encodeChar_of_front hfront, ← ih hrest]
      rfl
  | case3 => cases h

/-- What was read is written as the bytes it was read from. -/
theorem encode_of_decode {bytes : List UInt8} {s : List Char} (h : decode bytes = .ok s) : encode s = bytes :=
  encode_of_decodeFrom h

theorem encode_append (s t : List Char) : encode (s ++ t) = encode s ++ encode t := List.flatMap_append

/-- What is read of broken bytes stands in them, but for U+FFFD. -/
theorem mem_of_mem_lossy {bytes : List UInt8} {c : Char} (h : c ∈ lossy bytes) (hc : c ≠ '\ufffd') :
    ∀ b ∈ encodeChar c, b ∈ bytes := by
  intro b hb
  fun_induction lossy bytes with
  | case1 => cases h
  | case2 a rest d n hfront ih =>
    rw [← encodeChar_of_front hfront]
    rcases List.mem_cons.mp h with rfl | h
    · exact List.mem_append_left _ hb
    · exact List.mem_append_right _ (ih h)
  | case3 a rest n hfront ih =>
    rcases List.mem_cons.mp h with h | h
    · exact absurd h hc
    · exact List.mem_cons_of_mem _ (List.mem_of_mem_drop (ih h))
  | case4 => exact absurd (List.mem_singleton.mp h) hc

theorem nul_of_lossy {bytes : List UInt8} (h : '\x00' ∈ lossy bytes) : 0 ∈ bytes :=
  mem_of_mem_lossy h (by decide) 0 (by decide)

/-- Bytes of which nothing is replaced are those of what is read. -/
theorem encode_lossy {bytes : List UInt8} (h : '\ufffd' ∉ lossy bytes) : encode (lossy bytes) = bytes := by
  fun_induction lossy bytes with
  | case1 => rfl
  | case2 a rest c n hfront ih =>
    rw [← encodeChar_of_front hfront, encode, List.flatMap_cons]
    exact congrArg _ (ih fun hmem => h (List.mem_cons_of_mem _ hmem))
  | case3 => exact absurd List.mem_cons_self h
  | case4 => exact absurd List.mem_cons_self h

/-- A byte of ASCII is read as itself, and what stands on either side as if it stood alone. -/
theorem lossy_append_ascii (s more : List UInt8) {x : UInt8} (hx : x.toNat < 0x80) :
    lossy (s ++ x :: more) = lossy s ++ Char.ofNat x.toNat :: lossy more := by
  have hone : lossy (x :: more) = Char.ofNat x.toNat :: lossy more := by
    rw [lossy, front_one more hx rfl]
    rfl
  fun_induction lossy s with
  | case1 => exact hone
  | case2 a rest c n hfront ih =>
    have hlength := length_of_front (Or.inl ⟨c, hfront⟩)
    rw [List.cons_append, lossy, front_append _ (by simp [hfront]), hfront]
    simp only [List.drop_append_of_le_length hlength, ih, List.cons_append]
  | case3 a rest n hfront ih =>
    have hlength := length_of_front (Or.inr hfront)
    rw [List.cons_append, lossy, front_append _ (by simp [hfront]), hfront]
    simp only [List.drop_append_of_le_length hlength, ih, List.cons_append]
  | case4 a rest hfront =>
    rw [List.cons_append, lossy, front_append_ascii more hx hfront]
    simp only [Nat.add_sub_cancel, List.drop_left, hone, List.singleton_append]

theorem lossy_encode (s : List Char) : lossy (encode s) = s := by
  induction s with
  | nil => rw [encode, List.flatMap_nil, lossy]
  | cons c s ih =>
    obtain ⟨a, tail, hc, hfront⟩ := front_encodeChar c (encode s)
    have hbytes : encode (c :: s) = a :: (tail ++ encode s) := by
      rw [encode, List.flatMap_cons, hc]
      rfl
    rw [hbytes, lossy, hfront]
    simp only [Nat.add_sub_cancel, List.drop_left, ih]

end PackageIndex.Utf8
