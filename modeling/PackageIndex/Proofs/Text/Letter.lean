/-
  PackageIndex.Proofs.Text.Letter — classes of characters that have nothing in common.

  - `Ranges.has_disjoint`: sets whose spans lie apart share no character.
  - `of_ascii`: the characters of ASCII are gone through by their numbers.
  - `not_blank_of_alphanumeric`: no letter and no number is white space.
-/

import PackageIndex.Text.Blank
import PackageIndex.Text.Letter

namespace PackageIndex

/-- No span of the one table meets a span of the other. -/
def Ranges.Apart (r s : Ranges) : Prop := ∀ a ∈ r, ∀ b ∈ s, a.2 < b.1 ∨ b.2 < a.1

instance (r s : Ranges) : Decidable (r.Apart s) := inferInstanceAs (Decidable (∀ a ∈ r, ∀ b ∈ s, _))

theorem Ranges.has_iff {r : Ranges} {c : Char} : r.has c = true ↔ ∃ a ∈ r, a.1 ≤ c.toNat ∧ c.toNat ≤ a.2 := by
  simp [Ranges.has]

theorem Ranges.has_disjoint {r s : Ranges} (h : r.Apart s) {c : Char} (hr : r.has c = true) : s.has c = false := by
  obtain ⟨a, ha, hac⟩ := Ranges.has_iff.mp hr
  rw [Bool.eq_false_iff]
  intro hs
  obtain ⟨b, hb, hbc⟩ := Ranges.has_iff.mp hs
  rcases h a ha b hb with hlt | hlt <;> omega

/-- What holds of every number of ASCII, as a character, holds of its characters. -/
theorem of_ascii {P : Char → Prop} (h : ∀ n < 0x80, P (Char.ofNat n)) {c : Char} (hc : c.toNat < 0x80) : P c := by
  have hn := h c.toNat hc
  rwa [Char.ofNat_toNat] at hn

theorem alphabetic_apart_blank : alphabeticRanges.Apart blankRanges := by decide +kernel

theorem numeric_apart_blank : numericRanges.Apart blankRanges := by decide +kernel

theorem not_blank_of_alphanumeric {c : Char} (h : isAlphanumeric c = true) : isBlank c = false := by
  unfold isAlphanumeric at h
  split at h
  · rename_i hc
    have hascii : ∀ n < 0x80, (Char.ofNat n).isAlphanum = true → isBlank (Char.ofNat n) = false := by decide +kernel
    exact of_ascii (P := fun c => c.isAlphanum = true → isBlank c = false) hascii hc h
  · rcases Bool.or_eq_true_iff.mp h with h | h
    · exact Ranges.has_disjoint alphabetic_apart_blank h
    · exact Ranges.has_disjoint numeric_apart_blank h

end PackageIndex
