/-
  PackageIndex.Proofs.Text.Numeral — numbers written with a fixed count of digits.

  - `numeral?_speltNumber`: a number that is written so is read back, whatever follows.
  - `numeral?_succ`: numbers are read digit by digit, each one behind the number of those before it.
  - `numeral?_lt`: what is read has no more digits than were read, so it fits where they do.
-/

import Mathlib.Tactic.Ring
import PackageIndex.Proofs.Fallible
import PackageIndex.Text.Numeral

namespace PackageIndex

open Fallible

/-! ## Written numbers -/

def speltDigit (upper : Bool) (d : Nat) : Char := if upper then d.digitChar.toUpper else d.digitChar

/-- The last digits of a number, one for each letter case, the highest first. -/
def speltNumber (base n : Nat) : List Bool → List Char
  | [] => []
  | upper :: cases => speltDigit upper (n / base ^ cases.length % base) :: speltNumber base n cases

variable {base count n : Nat} {s : List Char}

theorem length_speltNumber (base n : Nat) (cases : List Bool) : (speltNumber base n cases).length = cases.length := by
  induction cases with
  | nil => rfl
  | cons upper cases ih => rw [speltNumber, List.length_cons, ih, List.length_cons]

theorem digit?_speltDigit : ∀ base ≤ 16, ∀ d < base, ∀ upper, digit? base (speltDigit upper d) = some d := by decide

/-- The digits read one after another, behind a number `m` that has been read. -/
theorem digits_speltNumber (hbase : 0 < base ∧ base ≤ 16) (n : Nat) (cases : List Bool) :
    ∃ ds, (speltNumber base n cases).mapM (digit? base) = some ds ∧
      ∀ m, ds.foldl (fun n d => n * base + d) m = m * base ^ cases.length + n % base ^ cases.length := by
  induction cases with
  | nil => exact ⟨[], rfl, fun m => by simp [Nat.mod_one]⟩
  | cons upper cases ih =>
    obtain ⟨ds, hds, hvalue⟩ := ih
    have hdigit := digit?_speltDigit base hbase.2 (n / base ^ cases.length % base) (Nat.mod_lt _ hbase.1) upper
    refine ⟨(n / base ^ cases.length % base) :: ds, ?_, fun m => ?_⟩
    · rw [speltNumber, List.mapM_cons, hdigit, hds]
      rfl
    · rw [List.foldl_cons, hvalue, List.length_cons, Nat.pow_succ, Nat.mod_mul]
      ring

/-- A number is read back from as many of its digits as are asked for. -/
theorem numeral?_speltNumber (hbase : 0 < base ∧ base ≤ 16) (n : Nat) (cases : List Bool) (rest : List Char) :
    numeral? base cases.length (speltNumber base n cases ++ rest) = some (n % base ^ cases.length) := by
  have htake : (speltNumber base n cases ++ rest).take cases.length = speltNumber base n cases :=
    List.take_left' (length_speltNumber base n cases)
  obtain ⟨ds, hds, hvalue⟩ := digits_speltNumber hbase n cases
  rw [numeral?, htake, if_pos (length_speltNumber base n cases), hds, Option.map_some, hvalue, Nat.zero_mul, Nat.zero_add]

/-- One more digit is read behind the number `n` of those before it. -/
theorem numeral?_succ (h : numeral? base count s = some n) :
    numeral? base (count + 1) s = (s[count]?.bind (digit? base)).map (n * base + ·) := by
  unfold numeral? at h
  split at h
  · rename_i hlength
    obtain ⟨ds, hds, rfl⟩ := Option.map_eq_some_iff.mp h
    rw [numeral?, List.take_add_one]
    cases hc : s[count]? with
    | none =>
      rw [if_neg (by simp [hlength])]
      rfl
    | some c =>
      rw [if_pos (by simp [hlength]), List.mapM_append, hds]
      cases hd : digit? base c with
      | none => simp [hd]
      | some d => simp [hd]
  · cases h

/-! ## Digits -/

theorem isSome_of_mapM {α β : Type} {f : α → Option β} {l : List α} {r : List β} (h : l.mapM f = some r) :
    ∀ a ∈ l, (f a).isSome = true := by
  intro a ha
  obtain ⟨b, -, hb⟩ := exists_of_forall₂ (forall₂_of_mapM h).flip ha
  simp [hb]

def isDigit (c : Char) : Bool := (digit? 16 c).isSome

theorem isDigit_of_digit? {c : Char} (hbase : base ≤ 16) (h : (digit? base c).isSome = true) : isDigit c = true := by
  obtain ⟨d, hd⟩ := Option.isSome_iff_exists.mp h
  obtain ⟨hvalue, hbound⟩ := Option.filter_eq_some_iff.mp hd
  have hwide : digit? 16 c = some d := Option.filter_eq_some_iff.mpr ⟨hvalue, by simp at hbound ⊢; omega⟩
  simp [isDigit, hwide]

/-- Only digits spell a number. -/
theorem digits_of_numeral? (hbase : base ≤ 16) (h : numeral? base count s = some n) :
    (s.take count).length = count ∧ ∀ c ∈ s.take count, isDigit c = true := by
  unfold numeral? at h
  split at h
  · rename_i hlength
    obtain ⟨ds, hds, -⟩ := Option.map_eq_some_iff.mp h
    exact ⟨hlength, fun c hc => isDigit_of_digit? hbase (isSome_of_mapM hds c hc)⟩
  · cases h

/-! ## Bounds -/

theorem digit?_lt {c : Char} {d : Nat} (h : digit? base c = some d) : d < base := by
  have hfilter := (Option.filter_eq_some_iff.mp h).2
  simpa using hfilter

theorem foldl_lt {ds : List Nat} (hds : ∀ d ∈ ds, d < base) {m bound : Nat} (hm : m < bound) :
    ds.foldl (fun n d => n * base + d) m < bound * base ^ ds.length := by
  induction ds generalizing m bound with
  | nil => simpa using hm
  | cons d ds ih =>
    obtain ⟨hd, hds⟩ := List.forall_mem_cons.mp hds
    have hstep : m * base + d < bound * base := by
      calc m * base + d < m * base + base := by omega
        _ = (m + 1) * base := by ring
        _ ≤ bound * base := Nat.mul_le_mul_right base hm
    have hmore := ih hds hstep
    rwa [Nat.mul_assoc, ← Nat.pow_succ'] at hmore

theorem lt_of_mapM {ds : List Nat} (h : s.mapM (digit? base) = some ds) : (∀ d ∈ ds, d < base) ∧ ds.length = s.length := by
  refine ⟨fun d hd => ?_, (forall₂_of_mapM h).length_eq.symm⟩
  obtain ⟨c, -, hc⟩ := exists_of_forall₂ (forall₂_of_mapM h) hd
  exact digit?_lt hc

/-- A number is below the first one that takes a digit more. -/
theorem numeral?_lt (h : numeral? base count s = some n) : n < base ^ count := by
  unfold numeral? at h
  split at h
  · rename_i htake
    obtain ⟨ds, hds, rfl⟩ := Option.map_eq_some_iff.mp h
    obtain ⟨hdigits, hlength⟩ := lt_of_mapM hds
    have hbound := foldl_lt hdigits Nat.zero_lt_one
    rwa [hlength, htake, Nat.one_mul] at hbound
  · cases h

end PackageIndex
