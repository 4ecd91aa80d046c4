/-
  PackageIndex.Proofs.Index.Bytes — words and strings at an address of some bytes.

  - `wordsAt?_append`, `untilZero?_append`: what is read does not hang on the bytes behind it.
  - `wordsAt?_bytesOfWords`: words are read back where they were written.
  - `wordsAt?_add`: words are read in pieces as they are read in one.
-/

import PackageIndex.Index.Word

namespace PackageIndex

/-! ## More bytes behind -/

theorem wordAt?_append {data : Array UInt8} {a : Nat} (h : a + 4 ≤ data.size) (more : Array UInt8) :
    wordAt? (data ++ more) a = wordAt? data a := by
  unfold wordAt?
  rw [Array.getElem?_append_left (by omega), Array.getElem?_append_left (by omega),
    Array.getElem?_append_left (by omega), Array.getElem?_append_left (by omega)]

theorem wordsAt?_append {data : Array UInt8} {a n : Nat} (h : a + 4 * n ≤ data.size) (more : Array UInt8) :
    wordsAt? (data ++ more) a n = wordsAt? data a n := by
  induction n generalizing a with
  | zero => rfl
  | succ n ih =>
    unfold wordsAt?
    rw [wordAt?_append (by omega), ih (by omega)]

theorem untilZero?_append {data : Array UInt8} {a : Nat} {s : List UInt8} (h : untilZero? data a = some s)
    (more : Array UInt8) : untilZero? (data ++ more) a = some s := by
  fun_induction untilZero? data a generalizing s with
  | case1 a ha h0 =>
    unfold untilZero?
    rw [dif_pos (by rw [Array.size_append]; omega), Array.getElem_append_left ha, if_pos h0]
    exact h
  | case2 a ha h0 ih =>
    unfold untilZero?
    rw [dif_pos (by rw [Array.size_append]; omega), Array.getElem_append_left ha, if_neg h0]
    obtain ⟨t, ht, rfl⟩ := Option.map_eq_some_iff.mp h
    rw [ih ht]
    rfl
  | case3 a ha => cases h

/-! ## Reading in pieces -/

theorem length_of_wordsAt? {data : Array UInt8} {a n : Nat} {ws : List UInt32} (h : wordsAt? data a n = some ws) :
    ws.length = n := by
  induction n generalizing a ws with
  | zero => cases h; rfl
  | succ n ih =>
    unfold wordsAt? at h
    simp only [Option.bind_eq_bind, Option.bind_eq_some_iff, Option.pure_def, Option.some.injEq] at h
    obtain ⟨w, _, vs, hvs, rfl⟩ := h
    rw [List.length_cons, ih hvs]

theorem wordsAt?_cons {data : Array UInt8} {a n : Nat} {w : UInt32} {ws : List UInt32}
    (h : wordsAt? data a (n + 1) = some (w :: ws)) : wordAt? data a = some w ∧ wordsAt? data (a + 4) n = some ws := by
  unfold wordsAt? at h
  simp only [Option.bind_eq_bind, Option.bind_eq_some_iff, Option.pure_def, Option.some.injEq] at h
  obtain ⟨v, hv, vs, hvs, e⟩ := h
  cases e
  exact ⟨hv, hvs⟩

/-- Words are there where the bytes are. -/
theorem exists_wordsAt? {data : Array UInt8} {a n : Nat} (h : a + 4 * n ≤ data.size) :
    ∃ ws, wordsAt? data a n = some ws := by
  induction n generalizing a with
  | zero => exact ⟨[], rfl⟩
  | succ n ih =>
    obtain ⟨ws, hws⟩ := ih (a := a + 4) (by omega)
    have hword : ∃ w, wordAt? data a = some w := by
      unfold wordAt?
      rw [Array.getElem?_eq_getElem (by omega), Array.getElem?_eq_getElem (by omega),
        Array.getElem?_eq_getElem (by omega), Array.getElem?_eq_getElem (by omega)]
      exact ⟨_, rfl⟩
    obtain ⟨w, hw⟩ := hword
    exact ⟨w :: ws, by simp [wordsAt?, hw, hws]⟩

theorem wordsAt?_add (data : Array UInt8) (a m n : Nat) :
    wordsAt? data a (m + n) = (do return (← wordsAt? data a m) ++ (← wordsAt? data (a + 4 * m) n)) := by
  induction m generalizing a with
  | zero => simp [wordsAt?]
  | succ m ih =>
    rw [Nat.succ_add, wordsAt?, ih, wordsAt?, show a + 4 * (m + 1) = a + 4 + 4 * m by omega]
    cases wordAt? data a with
    | none => rfl
    | some w =>
      cases wordsAt? data (a + 4) m with
      | none => rfl
      | some ws =>
        cases wordsAt? data (a + 4 + 4 * m) n with
        | none => rfl
        | some vs => rfl

/-! ## Reading what was written -/

theorem length_bytesOfWords (ws : List UInt32) : (bytesOfWords ws).length = 4 * ws.length := by
  induction ws with
  | nil => rfl
  | cons w ws ih =>
    show (bytesOfWord w ++ bytesOfWords ws).length = _
    rw [List.length_append, length_bytesOfWord, ih, List.length_cons]
    omega

theorem wordsAt?_bytesOfWords (before after : List UInt8) (ws : List UInt32) :
    wordsAt? (before ++ bytesOfWords ws ++ after).toArray before.length ws.length = some ws := by
  induction ws generalizing before with
  | nil => rfl
  | cons w ws ih =>
    have h1 := wordAt?_bytesOfWord before (bytesOfWords ws ++ after) w
    have h2 := ih (before ++ bytesOfWord w)
    have e : before ++ bytesOfWords (w :: ws) ++ after = before ++ bytesOfWord w ++ (bytesOfWords ws ++ after) := by
      simp only [bytesOfWords, List.flatMap_cons, List.append_assoc]
    rw [List.length_append, length_bytesOfWord, List.append_assoc] at h2
    rw [List.length_cons, wordsAt?, e, h1, h2]
    rfl

theorem untilZero?_written (before s after : List UInt8) (h : 0 ∉ s) :
    untilZero? (before ++ s ++ 0 :: after).toArray before.length = some s := by
  induction s generalizing before with
  | nil =>
    unfold untilZero?
    rw [dif_pos (by simp), if_pos (by simp)]
  | cons b s ih =>
    have h2 := ih (before ++ [b]) fun h0 => h (List.mem_cons_of_mem _ h0)
    rw [List.length_append, List.append_assoc before [b] s] at h2
    have hb : b ≠ 0 := fun e => h (e ▸ List.mem_cons_self)
    have hg : (before ++ b :: s ++ 0 :: after).toArray[before.length]? = some b := by simp
    obtain ⟨hlt, hg⟩ := Array.getElem?_eq_some_iff.mp hg
    unfold untilZero?
    rw [dif_pos hlt, hg, if_neg hb]
    exact congrArg (Option.map (b :: ·)) h2

end PackageIndex
