/-
  PackageIndex.Proofs.Index.Holds — reading words of which it is known where they stand.

  - `OpenIndex.Holds`: words stand at an address, all of them in the record area.
  - `holds_append`, `holds_cons`: words that stand in a row stand one behind the other.
  - `list_eq_ok`, `afterList_eq_ok`: a list is read where a count and its items stand, and so
    the address behind them is found.
-/

import PackageIndex.Index.Entry
import PackageIndex.Proofs.Fallible
import PackageIndex.Proofs.Index.Bytes

namespace PackageIndex.OpenIndex

open Fallible

/-- The words `ws` stand at `a`, in front of the string table. -/
def Holds (x : OpenIndex) (a : Nat) (ws : List UInt32) : Prop :=
  a + 4 * ws.length ≤ x.tableOffset ∧ wordsAt? x.data a ws.length = some ws

variable {x : OpenIndex} {a : Nat}

theorem holds_append {ws vs : List UInt32} (h : x.Holds a (ws ++ vs)) :
    x.Holds a ws ∧ x.Holds (a + 4 * ws.length) vs := by
  obtain ⟨hle, h⟩ := h
  rw [List.length_append] at hle
  rw [List.length_append, wordsAt?_add] at h
  simp only [Option.bind_eq_bind, Option.bind_eq_some_iff, Option.pure_def, Option.some.injEq] at h
  obtain ⟨ws', hws, vs', hvs, e⟩ := h
  obtain ⟨rfl, rfl⟩ := List.append_inj e (length_of_wordsAt? hws)
  exact ⟨⟨by omega, hws⟩, ⟨by omega, hvs⟩⟩

theorem words_of_holds {ws : List UInt32} (h : x.Holds a ws) {n : Nat} (hn : ws.length = n) :
    x.words a n = .ok ws := by
  subst hn
  unfold words
  rw [if_pos h.1, h.2]

theorem holds_of_words {n : Nat} {ws : List UInt32} (h : x.words a n = .ok ws) : x.Holds a ws ∧ ws.length = n := by
  unfold words at h
  by_cases hle : a + 4 * n ≤ x.tableOffset
  · cases hws : wordsAt? x.data a n with
    | none => simp [hle, hws] at h
    | some vs =>
      simp [hle, hws] at h
      subst h
      have hn := length_of_wordsAt? hws
      subst hn
      exact ⟨⟨hle, hws⟩, rfl⟩
  · simp [hle] at h

theorem holds_cons {w : UInt32} {ws : List UInt32} (h : x.Holds a (w :: ws)) :
    x.word a = .ok w ∧ x.Holds (a + 4) ws := by
  have h' : x.Holds a ([w] ++ ws) := h
  obtain ⟨hw, hr⟩ := holds_append h'
  refine ⟨?_, hr⟩
  unfold word
  rw [words_of_holds hw (n := 1) rfl]
  rfl

theorem word_le {w : UInt32} (h : x.word a = .ok w) : a + 4 ≤ x.tableOffset := by
  obtain ⟨ws, hws, -⟩ := bind_eq_ok.mp h
  obtain ⟨hholds, hlen⟩ := holds_of_words hws
  have hle := hholds.1
  omega

theorem string_of_word {w : UInt32} (h : x.word a = .ok w) : x.string a = x.strings.get w := by
  rw [string, h]
  rfl

/-- Words stand wherever the record area has room for them. -/
theorem exists_holds (hx : x.tableOffset ≤ x.data.size) {n : Nat} (hle : a + 4 * n ≤ x.tableOffset) :
    ∃ ws, x.Holds a ws ∧ ws.length = n := by
  obtain ⟨ws, hws⟩ := exists_wordsAt? (Nat.le_trans hle hx)
  have hlen := length_of_wordsAt? hws
  subst hlen
  exact ⟨ws, ⟨hle, hws⟩, rfl⟩

/-! ## Counted lists -/

variable {size b : Nat}

theorem itemWords_eq_ok {n k : Nat} : itemWords n size = .ok k ↔ FitsWord (n * size) ∧ k = n * size := by
  unfold itemWords
  by_cases hn : FitsWord (n * size)
  · rw [if_pos hn]
    exact ⟨fun h => ⟨hn, (Except.ok.inj h).symm⟩, fun h => by rw [h.2]; rfl⟩
  · rw [if_neg hn]
    exact ⟨fun h => (nomatch h), fun h => absurd h.1 hn⟩

/-- What is in the record area is not too long for a word. -/
theorem list_eq_ok (hx : FitsWord x.tableOffset) {ws : List UInt32} : x.list a size = .ok ws ↔
    ∃ n, x.word a = .ok n ∧ x.Holds (a + 4) ws ∧ n.toNat * size = ws.length := by
  constructor
  · intro h
    obtain ⟨n, hn, h⟩ := bind_eq_ok.mp h
    obtain ⟨k, hk, h⟩ := bind_eq_ok.mp h
    obtain ⟨-, rfl⟩ := itemWords_eq_ok.mp hk
    obtain ⟨hws, hlen⟩ := holds_of_words h
    exact ⟨n, hn, hws, hlen.symm⟩
  · rintro ⟨n, hn, hws, hlen⟩
    have hle := hws.1
    refine bind_eq_ok.mpr ⟨n, hn, bind_eq_ok.mpr ⟨_, itemWords_eq_ok.mpr ⟨by omega, rfl⟩, ?_⟩⟩
    exact words_of_holds hws hlen.symm

theorem afterList_eq_ok (hx : FitsWord x.tableOffset) : x.afterList a size = .ok b ↔
    ∃ n, x.word a = .ok n ∧ b = a + 4 * (1 + n.toNat * size) ∧ b ≤ x.tableOffset := by
  constructor
  · intro h
    obtain ⟨n, hn, h⟩ := bind_eq_ok.mp h
    obtain ⟨k, hk, h⟩ := bind_eq_ok.mp h
    obtain ⟨-, rfl⟩ := itemWords_eq_ok.mp hk
    by_cases hle : a + 4 * (1 + n.toNat * size) ≤ x.tableOffset
    · rw [if_pos hle] at h
      cases h
      exact ⟨n, hn, rfl, hle⟩
    · rw [if_neg hle] at h
      cases h
  · rintro ⟨n, hn, rfl, hle⟩
    refine bind_eq_ok.mpr ⟨n, hn, bind_eq_ok.mpr ⟨_, itemWords_eq_ok.mpr ⟨by omega, rfl⟩, ?_⟩⟩
    rw [if_pos hle]
    rfl

variable {n : UInt32} {items : List UInt32}

theorem list_of_holds (hx : FitsWord x.tableOffset) (h : x.Holds a (n :: items))
    (hn : n.toNat * size = items.length) : x.list a size = .ok items := by
  obtain ⟨hw, hr⟩ := holds_cons h
  exact (list_eq_ok hx).mpr ⟨n, hw, hr, hn⟩

theorem afterList_of_holds (hx : FitsWord x.tableOffset) (h : x.Holds a (n :: items))
    (hn : n.toNat * size = items.length) : x.afterList a size = .ok (a + 4 * (n :: items).length) := by
  obtain ⟨hw, hr⟩ := holds_cons h
  have hle := hr.1
  refine (afterList_eq_ok hx).mpr ⟨n, hw, ?_, ?_⟩
  · rw [List.length_cons, hn]
    omega
  · rw [List.length_cons]
    omega

/-- What can be read of a list ends inside the record area. -/
theorem exists_afterList (hx : FitsWord x.tableOffset) {ws : List UInt32} (h : x.list a size = .ok ws) :
    ∃ b, x.afterList a size = .ok b := by
  obtain ⟨n, hn, hws, hlen⟩ := (list_eq_ok hx).mp h
  have hle := hws.1
  exact ⟨_, (afterList_eq_ok hx).mpr ⟨n, hn, rfl, by omega⟩⟩

end PackageIndex.OpenIndex
