/-
  PackageIndex.Proofs.Source.Place — the place behind a text.

  A place is told anew by all that stands before it: its bytes, its line feeds, and the bytes
  since the last of these.

  - `after_placeBehind`: places that are counted while reading are these.
  - `along_eq_after`: so are those behind what is taken for a part of one line and is one.
  - `Place.Trails`: a place that is counted while reading what is not always one.
  - `Place.Trails.position`: as 32-bit numbers they stay what they are, in a text below 4 GiB.
-/

import PackageIndex.Proofs.Text.Bytes
import PackageIndex.Source.Header

namespace PackageIndex

def openLine (before : List Char) : List Char := (before.reverse.takeWhile (· ≠ '\n')).reverse

/-- The position is that of what stands behind the text. -/
structure Position.StandsBehind (p : Position) (before : List Char) : Prop where
  offset : p.offset.toNat = Utf8.size before
  line : p.line.toNat = before.count '\n' + 1
  column : p.column.toNat = Utf8.size (openLine before) + 1

instance (p : Position) (before : List Char) : Decidable (p.StandsBehind before) :=
  decidable_of_iff (p.offset.toNat = Utf8.size before ∧ p.line.toNat = before.count '\n' + 1 ∧
      p.column.toNat = Utf8.size (openLine before) + 1)
    ⟨fun ⟨hoffset, hline, hcolumn⟩ => ⟨hoffset, hline, hcolumn⟩, fun h => ⟨h.offset, h.line, h.column⟩⟩

/-- The position is that of what stands behind the text, but for line feeds that were not counted. -/
structure Position.TrailsBehind (p : Position) (before : List Char) (missed : Nat) : Prop where
  offset : p.offset.toNat = Utf8.size before
  line : p.line.toNat + missed = before.count '\n' + 1
  column : p.column.toNat = Utf8.size (openLine before) + 1

theorem Position.TrailsBehind.standsBehind_iff {p : Position} {before : List Char} {missed : Nat}
    (h : p.TrailsBehind before missed) : p.StandsBehind before ↔ missed = 0 := by
  have hline := h.line
  constructor
  · intro hstands
    have := hstands.line
    omega
  · rintro rfl
    exact ⟨h.offset, hline, h.column⟩

namespace Utf8

@[simp] theorem size_append (s t : List Char) : size (s ++ t) = size s + size t := by
  induction s with
  | nil => simp [size]
  | cons c s ih => simp [size, ih, Nat.add_assoc]

theorem length_le_size (s : List Char) : s.length ≤ size s := by
  induction s with
  | nil => exact Nat.le_refl _
  | cons c s ih =>
    have := c.utf8Size_pos
    simp only [size, List.length_cons]
    omega

theorem size_pos {s : List Char} (h : s ≠ []) : 0 < size s :=
  Nat.lt_of_lt_of_le (List.length_pos_iff.mpr h) (length_le_size s)

end Utf8

namespace Source

variable {before s : List Char} {c : Char} {p : Place} {missed : Nat} {clear : Bool}

theorem openLine_snoc (before : List Char) (c : Char) :
    openLine (before ++ [c]) = if c = '\n' then [] else openLine before ++ [c] := by
  unfold openLine
  rw [List.reverse_append, List.reverse_singleton, List.singleton_append]
  split
  · rename_i hc
    simp [hc]
  · rename_i hc
    simp [hc]

theorem size_openLine_le (before : List Char) : Utf8.size (openLine before) ≤ Utf8.size before := by
  have hsuffix : openLine before <:+ before := by
    rw [← List.reverse_prefix, openLine, List.reverse_reverse]
    exact List.takeWhile_prefix _
  obtain ⟨front, hfront⟩ := hsuffix
  rw [← hfront, Utf8.size_append, hfront]
  omega

def placeBehind (before : List Char) : Place where
  offset := Utf8.size before
  line := before.count '\n' + 1
  column := Utf8.size (openLine before) + 1

theorem placeBehind_snoc (before : List Char) (c : Char) : placeBehind (before ++ [c]) = (placeBehind before).next c := by
  unfold placeBehind Place.next
  rw [openLine_snoc]
  split
  · rename_i hc
    subst hc
    simp [Utf8.size]
    decide
  · rename_i hc
    simp [Place.pass, Utf8.size, hc, Nat.add_right_comm]

/-- Reading on leads from one place to the next. -/
theorem after_placeBehind (before s : List Char) : (placeBehind before).after s = placeBehind (before ++ s) := by
  induction s generalizing before with
  | nil => simp [Place.after]
  | cons c s ih =>
    show ((placeBehind before).next c).after s = _
    rw [← placeBehind_snoc, ih, List.append_assoc, List.singleton_append]

theorem next_placeBehind (before : List Char) (c : Char) : (placeBehind before).next c = placeBehind (before ++ [c]) :=
  (placeBehind_snoc before c).symm

theorem along_eq_after (hs : '\n' ∉ s) (p : Place) : p.along s = p.after s := by
  induction s generalizing p with
  | nil => rfl
  | cons c s ih =>
    simp only [List.mem_cons, not_or] at hs
    show (p.pass c).along s = (p.next c).after s
    rw [Place.next, if_neg (Ne.symm hs.1), ih hs.2]

/-! ## Counting -/

/-- A place that was counted up to the end of a text, but for line feeds that were missed. If only blanks
stand before it on its line, then none was missed there. -/
structure Place.Trails (p : Place) (before : List Char) (missed : Nat) (clear : Bool) : Prop where
  offset : p.offset = Utf8.size before
  line : p.line + missed = before.count '\n' + 1
  column : clear = true → p.column = Utf8.size (openLine before) + 1

theorem Place.Trails.next (h : p.Trails before missed clear) (c : Char) :
    (p.next c).Trails (before ++ [c]) missed (clear || c == '\n') := by
  have hline := h.line
  unfold Place.next
  split
  · rename_i hc
    subst hc
    refine ⟨?_, ?_, fun _ => ?_⟩
    · simp only [h.offset, Utf8.size_append]
      rfl
    · simp only [List.count_append, List.count_singleton_self]
      omega
    · rw [openLine_snoc, if_pos rfl]
      rfl
  · rename_i hc
    refine ⟨?_, ?_, fun hclear => ?_⟩
    · simp only [Place.pass, h.offset, Utf8.size_append]
      rfl
    · simp only [Place.pass, List.count_append, List.count_singleton, beq_iff_eq, hc, if_false]
      omega
    · have hcolumn := h.column (by simpa [hc] using hclear)
      rw [openLine_snoc, if_neg hc, Utf8.size_append]
      simp only [Place.pass, hcolumn, Utf8.size]
      omega

theorem Place.Trails.anyLine (h : p.Trails before missed clear) : p.Trails before missed false := ⟨h.offset, h.line, nofun⟩

theorem Place.Trails.after (h : p.Trails before missed clear) (s : List Char) : (p.after s).Trails (before ++ s) missed clear := by
  induction s generalizing p before with
  | nil => simpa [Place.after] using h
  | cons c s ih =>
    have hnext : (p.next c).Trails (before ++ [c]) missed clear := by
      obtain ⟨hoffset, hline, hcolumn⟩ := h.next c
      exact ⟨hoffset, hline, fun hclear => hcolumn (by simp [hclear])⟩
    rw [← List.singleton_append, ← List.append_assoc]
    exact ih hnext

/-- Line feeds in what is taken for a part of one line are missed. -/
theorem Place.Trails.along (h : p.Trails before missed clear) (s : List Char) :
    (p.along s).Trails (before ++ s) (missed + s.count '\n') false := by
  induction s generalizing p before missed clear with
  | nil => simpa [Place.along] using h.anyLine
  | cons c s ih =>
    have hpass : (p.pass c).Trails (before ++ [c]) (missed + [c].count '\n') false := by
      refine ⟨?_, ?_, nofun⟩
      · simp only [Place.pass, h.offset, Utf8.size_append]
        rfl
      · have hline := h.line
        simp only [Place.pass, List.count_append]
        omega
    have hrest := ih hpass
    rwa [List.append_assoc, Nat.add_assoc, ← List.count_append, List.singleton_append] at hrest

/-! ## Positions -/

def Place.position (filename : String) (p : Place) : Position where
  filename
  offset := p.offset.toUInt32
  line := p.line.toUInt32
  column := p.column.toUInt32

theorem toNat_of_lt {n : Nat} (hn : n < 0x100000000) : n.toUInt32.toNat = n := UInt32.toNat_ofNat_of_lt' hn

theorem Place.Trails.position (h : p.Trails before missed true) (filename : String) (hsize : Utf8.size before + 1 < 0x100000000) :
    (p.position filename).TrailsBehind before missed := by
  obtain ⟨hoffset, hline, hcolumn⟩ := h
  have hfeeds : before.count '\n' ≤ Utf8.size before := Nat.le_trans List.count_le_length (Utf8.length_le_size before)
  have hopen := size_openLine_le before
  have hcolumn := hcolumn rfl
  refine ⟨?_, ?_, ?_⟩
  · exact (toNat_of_lt (by omega)).trans hoffset
  · rw [Place.position, toNat_of_lt (by omega)]
    exact hline
  · exact (toNat_of_lt (by omega)).trans hcolumn

theorem standsBehind_position (filename : String) (h : Utf8.size before + 1 < 0x100000000) :
    ((placeBehind before).position filename).StandsBehind before := by
  have htrails : (placeBehind before).Trails before 0 true := ⟨rfl, rfl, fun _ => rfl⟩
  exact (htrails.position filename h).standsBehind_iff.mpr rfl

/-! ## Headers -/

/-- What has a position in a header is read of the text of the file, if it is there at all. -/
theorem declared_of_scan {name path : String} {source : List Char} {h : Header}
    (hscan : Header.scan name path (Utf8.encode source) = .ok h) :
    (h.imports = [] ∨ h.imports = (clause path source).imports) ∧ (h.embeds = [] ∨ h.embeds = embedsOfSource path source) := by
  unfold Header.scan at hscan
  split at hscan
  · cases hscan
  · simp only [Utf8.decode_encode] at hscan
    split at hscan
    · cases hscan
      exact ⟨.inl rfl, .inl rfl⟩
    · cases hscan
      refine ⟨.inr rfl, ?_⟩
      simp only [Header.addClause]
      split
      · exact .inr rfl
      · exact .inl rfl

end Source

end PackageIndex
