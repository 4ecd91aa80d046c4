/-
  PackageIndex.Proofs.Index.Strings — offsets in the string table stay good while it grows.

  - `get_append`: a string that a table holds is held by every longer table.
  - `StringPool.Sound`: every offset that the pool has given out names its string.
  - `intern_sound`: taking in a string keeps that, only adds bytes, and answers an offset
    that names the string.
-/

import PackageIndex.Index.Strings
import PackageIndex.Proofs.Index.Bytes
import PackageIndex.Proofs.Lookup
import PackageIndex.Proofs.Text.Bytes

namespace PackageIndex

/-! ## Looking up -/

namespace StringTable

/-- A string that a table holds is held by every longer one. -/
theorem get_append {bytes : Array UInt8} {w : UInt32} {s : String} (h : StringTable.get ⟨bytes⟩ w = .ok s)
    (more : Array UInt8) : StringTable.get ⟨bytes ++ more⟩ w = .ok s := by
  unfold get at h ⊢
  by_cases h0 : w = 0
  · rw [if_pos h0] at h ⊢
    exact h
  rw [if_neg h0] at h ⊢
  split at h
  · cases h
  · rename_i hsize
    have hsize' : ¬ (bytes ++ more).size ≤ w.toNat := by
      rw [Array.size_append]
      simp only [Nat.not_le] at hsize ⊢
      omega
    rw [if_neg hsize']
    split at h
    · cases h
    · rename_i t ht
      rw [untilZero?_append ht]
      exact h

/-- A string is found where it stands with a zero byte behind it. -/
theorem get_written (before after : List UInt8) (s : String) (hb : before ≠ []) (hf : FitsWord before.length)
    (hs : '\x00' ∉ s.toList) :
    StringTable.get ⟨(before ++ Utf8.ofString s ++ 0 :: after).toArray⟩ before.length.toUInt32 = .ok s := by
  have hw : before.length.toUInt32.toNat = before.length := by
    simp only [Nat.toUInt32, UInt32.toNat_ofNat']
    omega
  have hpos : 0 < before.length := List.length_pos_iff.mpr hb
  have h0 : before.length.toUInt32 ≠ 0 := by
    intro e
    rw [e] at hw
    exact absurd hw (by show 0 ≠ before.length; omega)
  have hsize : ¬ (before ++ Utf8.ofString s ++ 0 :: after).toArray.size ≤ before.length := by
    rw [List.size_toArray, List.length_append, List.length_append, List.length_cons]
    omega
  unfold get
  rw [if_neg h0, hw, if_neg hsize,
    untilZero?_written before (Utf8.ofString s) after (fun h => hs ((Utf8.zero_mem_ofString s).mp h))]
  simp only [Utf8.ofString, Utf8.decode_encode, String.ofList_toList]

end StringTable

/-! ## The pool -/

namespace StringPool

structure Sound (p : StringPool) : Prop where
  size_eq : p.size = p.bytes.length
  found : ∀ e ∈ p.entries, StringTable.get ⟨p.bytes.toArray⟩ e.2.toUInt32 = .ok e.1

theorem sound_empty : Sound {} := ⟨rfl, fun _ h => nomatch h⟩

theorem bytes_cons (s : String) (p : StringPool) (n m : Nat) :
    bytes ⟨(s, n) :: p.entries, m⟩ = p.bytes ++ Utf8.ofString s ++ [0] := by
  simp only [bytes, List.reverse_cons, List.flatMap_append, List.flatMap_cons, List.flatMap_nil, List.append_nil,
    List.cons_append, List.append_assoc]

/-- What a new string adds. -/
theorem sound_cons {p : StringPool} (hp : p.Sound) {s : String} (hs : '\x00' ∉ s.toList) (hf : FitsWord p.size) :
    Sound ⟨(s, p.size) :: p.entries, p.size + Utf8.size s.toList + 1⟩ := by
  refine ⟨?_, fun e he => ?_⟩
  · rw [bytes_cons, List.length_append, List.length_append, Utf8.length_ofString, ← hp.size_eq]
    rfl
  · rw [bytes_cons]
    rcases List.mem_cons.mp he with rfl | he
    · rw [hp.size_eq] at hf ⊢
      exact StringTable.get_written _ [] s (by simp [bytes]) hf hs
    · have h := StringTable.get_append (hp.found e he) (Utf8.ofString s ++ [0]).toArray
      rw [List.append_toArray, ← List.append_assoc] at h
      exact h

theorem intern_sound {p q : StringPool} {s : String} {w : UInt32} (hp : p.Sound) (h : intern s p = .ok (w, q)) :
    q.Sound ∧ p.bytes <+: q.bytes ∧ StringTable.get ⟨q.bytes.toArray⟩ w = .ok s := by
  unfold intern at h
  split at h
  · rename_i hs
    cases h
    exact ⟨hp, List.prefix_refl _, by rw [hs]; rfl⟩
  · split at h
    · rename_i n hn
      cases h
      exact ⟨hp, List.prefix_refl _, hp.found _ (mem_of_lookup hn)⟩
    · split at h
      · cases h
      · rename_i hnul
        split at h
        · rename_i hf
          cases h
          have hq := sound_cons hp (by simpa using hnul) hf
          refine ⟨hq, ?_, hq.found _ List.mem_cons_self⟩
          rw [bytes_cons, List.append_assoc]
          exact List.prefix_append _ _
        · cases h

end StringPool

end PackageIndex
