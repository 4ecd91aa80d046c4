/-
  PackageIndex.Proofs.Source.Literal — which sources can spell the zero character, and which literals hold line feeds.

  A zero character stands in what was read of a source if it stands in the source, or if an
  escape of a literal does that spells it: a zero by three octal digits, or by two, four or
  eight hexadecimal ones.

  - `nul_not_mem_literalText?`: no literal of a source stands for a zero that spells none.
  - `plain_of_decode`: bytes and the text they are read as spell the same.
  - `literalText?_eq_some`: what a literal between quotes, and one between backquotes, stands for.
  - `newline_not_mem_interpreted`: a literal between quotes that holds a line feed stands for nothing.
-/

import PackageIndex.Proofs.Text.Decoding
import PackageIndex.Proofs.Text.Numeral
import PackageIndex.Proofs.Text.Parts
import PackageIndex.Source.Literal

namespace PackageIndex.Source

/-! ## Spellings -/

def nulSpellings : List (List Char) :=
  [['\x00'], "\\000".toList, "\\x00".toList, "\\u0000".toList, "\\U00000000".toList]

/-- The text has no spelling of the zero character. -/
def Plain (s : List Char) : Prop := ∀ e ∈ nulSpellings, ¬ e <:+: s

def PlainBytes (content : List UInt8) : Prop := ∀ e ∈ nulSpellings, ¬ Utf8.encode e <:+: content

instance (content : List UInt8) : Decidable (PlainBytes content) :=
  inferInstanceAs (Decidable (∀ e ∈ nulSpellings, ¬ Utf8.encode e <:+: content))

variable {s t : List Char} {content : List UInt8}

theorem plain_nil : Plain [] := by
  intro e he hpart
  rw [List.eq_nil_of_infix_nil hpart] at he
  exact absurd he (by decide)

theorem Plain.part (h : Plain s) (ht : t <:+: s) : Plain t := fun e he hpart => h e he (hpart.trans ht)

theorem Plain.nul (h : Plain s) : '\x00' ∉ s := fun hmem =>
  h ['\x00'] List.mem_cons_self ((List.singleton_infix_iff _ _).mpr hmem)

theorem PlainBytes.nul (h : PlainBytes content) : 0 ∉ content := fun hmem =>
  h ['\x00'] List.mem_cons_self ((List.singleton_infix_iff _ _).mpr hmem)

theorem encode_isInfix (h : t <:+: s) : Utf8.encode t <:+: Utf8.encode s := by
  obtain ⟨before, after, rfl⟩ := h
  exact ⟨Utf8.encode before, Utf8.encode after, by simp only [Utf8.encode_append]⟩

theorem plain_of_decode (h : PlainBytes content) (hs : Utf8.decode content = .ok s) : Plain s := by
  intro e he hpart
  apply h e he
  rw [← Utf8.encode_of_decode hs]
  exact encode_isInfix hpart

/-! ## Escapes -/

theorem digit?_eq_zero {base : Nat} {c : Char} (h : digit? base c = some 0) : c = '0' := by
  unfold digit? at h
  obtain ⟨hvalue, -⟩ := Option.filter_eq_some_iff.mp h
  split at hvalue
  · rename_i hc
    have hle : '0'.toNat ≤ c.toNat := hc.1
    have hzero : c.toNat - '0'.toNat = 0 := Option.some.inj hvalue
    exact Char.toNat_inj.mp (by omega)
  · split at hvalue
    · simp at hvalue
    · split at hvalue <;> simp at hvalue

theorem zero_of_foldl {base n : Nat} (hbase : 0 < base) {ds : List Nat}
    (h : ds.foldl (fun n d => n * base + d) n = 0) : n = 0 ∧ ∀ d ∈ ds, d = 0 := by
  induction ds generalizing n with
  | nil => exact ⟨h, by simp⟩
  | cons d ds ih =>
    obtain ⟨hstart, hds⟩ := ih h
    have hsum : n * base + d = 0 := hstart
    have hn : n * base = 0 := by omega
    refine ⟨(Nat.mul_eq_zero.mp hn).resolve_right (by omega), ?_⟩
    intro d' hd'
    rcases List.mem_cons.mp hd' with rfl | hd'
    · omega
    · exact hds d' hd'

theorem digits_of_zero {base : Nat} {ds : List Nat} (h : s.mapM (digit? base) = some ds) (hds : ∀ d ∈ ds, d = 0) :
    ∀ c ∈ s, c = '0' := by
  intro c hc
  obtain ⟨d, hd, hdigit⟩ := Fallible.exists_of_forall₂ (Fallible.forall₂_of_mapM h).flip hc
  rw [hds d hd] at hdigit
  exact digit?_eq_zero hdigit

/-- Only zeros spell zero. -/
theorem zeros_of_numeral? {base count : Nat} (hbase : 0 < base) (h : numeral? base count s = some 0) :
    List.replicate count '0' <+: s := by
  unfold numeral? at h
  split at h
  · rename_i hlength
    obtain ⟨ds, hds, hzero⟩ := Option.map_eq_some_iff.mp h
    have hall := digits_of_zero hds (zero_of_foldl hbase hzero).2
    rw [← List.eq_replicate_iff.mpr ⟨hlength, hall⟩]
    exact List.take_prefix count s
  · cases h

theorem charAt?_eq_nul {n : Nat} (h : charAt? n = some '\x00') : n = 0 := by
  unfold charAt? at h
  split at h
  · rename_i hvalid
    have hnat : (Char.ofNat n).toNat = n := Utf8.toNat_ofNat (by unfold Nat.isValidChar at hvalid; omega)
    rw [Option.some.inj h] at hnat
    exact hnat.symm
  · cases h

theorem spelling_of_escape? {n : Nat} (h : escape? s = some ('\x00', n)) : ∃ e ∈ nulSpellings, e <+: '\\' :: s := by
  have hzero {value? : Option Nat} {k : Nat} (hk : (value?.bind charAt?).map (·, k) = some ('\x00', n)) :
      value? = some 0 := by
    obtain ⟨d, hd, he⟩ := Option.map_eq_some_iff.mp hk
    cases he
    obtain ⟨value, hvalue, hd⟩ := Option.bind_eq_some_iff.mp hd
    rw [hvalue, charAt?_eq_nul hd]
  cases s with
  | nil => cases h
  | cons c s =>
    simp only [escape?] at h
    split at h
    · rename_i d hd
      cases h
      unfold namedEscape? at hd
      split at hd <;> simp at hd
    · split at h
      · have hs := zeros_of_numeral? (by decide) (hzero h)
        refine ⟨"\\x00".toList, by decide, ?_⟩
        simpa [List.replicate] using hs
      · have hs := zeros_of_numeral? (by decide) (hzero h)
        refine ⟨"\\u0000".toList, by decide, ?_⟩
        simpa [List.replicate] using hs
      · have hs := zeros_of_numeral? (by decide) (hzero h)
        refine ⟨"\\U00000000".toList, by decide, ?_⟩
        simpa [List.replicate] using hs
      · have hs := zeros_of_numeral? (by decide) (Option.filter_eq_some_iff.mp (hzero h)).1
        refine ⟨"\\000".toList, by decide, ?_⟩
        simpa [List.replicate] using hs

/-! ## Literals -/

theorem nul_not_mem_unescape? (hs : Plain s) (h : unescape? s = some t) : '\x00' ∉ t := by
  fun_induction unescape? s generalizing t with
  | case1 =>
    cases h
    simp
  | case2 => cases h
  | case3 => cases h
  | case4 => cases h
  | case5 s c n hescape ih =>
    obtain ⟨rest, hrest, rfl⟩ := Option.map_eq_some_iff.mp h
    have hsuffix : s.drop n <:+ '\\' :: s := (List.drop_suffix n s).trans (List.suffix_cons _ s)
    intro hmem
    rcases List.mem_cons.mp hmem with hc | hmem
    · obtain ⟨e, he, hfront⟩ := spelling_of_escape? (hc ▸ hescape)
      exact hs e he hfront.isInfix
    · exact ih (hs.part hsuffix.isInfix) hrest hmem
  | case6 c s _ _ _ ih =>
    obtain ⟨rest, hrest, rfl⟩ := Option.map_eq_some_iff.mp h
    intro hmem
    rcases List.mem_cons.mp hmem with hc | hmem
    · exact hs.nul (hc ▸ List.mem_cons_self)
    · exact ih (hs.part (List.suffix_cons _ s).isInfix) hrest hmem

theorem dropClosing?_eq_some {c : Char} : dropClosing? c s = some t ↔ s = t ++ [c] := by
  unfold dropClosing?
  constructor
  · intro h
    split at h
    · rename_i hlast
      rw [← Option.some.inj h]
      exact (List.dropLast_append_getLast? _ hlast).symm
    · cases h
  · rintro rfl
    simp

/-- The two kinds of literals, by what stands between their quotes. -/
theorem literalText?_eq_some : literalText? s = some t ↔
    (∃ body, s = '"' :: (body ++ ['"']) ∧ unescape? body = some t) ∨
      ∃ body, s = '`' :: (body ++ ['`']) ∧ '`' ∉ body ∧ t = body.filter (· ≠ '\r') := by
  constructor
  · intro h
    unfold literalText? at h
    split at h
    · obtain ⟨body, hclosing, h⟩ := Option.bind_eq_some_iff.mp h
      rw [dropClosing?_eq_some.mp hclosing]
      split at h
      · cases h
      · rename_i hquote
        exact .inr ⟨body, rfl, by simpa using hquote, (Option.some.inj h).symm⟩
    · obtain ⟨body, hclosing, h⟩ := Option.bind_eq_some_iff.mp h
      rw [dropClosing?_eq_some.mp hclosing]
      exact .inl ⟨body, rfl, h⟩
    · cases h
  · rintro (⟨body, rfl, h⟩ | ⟨body, rfl, hquote, rfl⟩)
    · exact Option.bind_eq_some_iff.mpr ⟨body, dropClosing?_eq_some.mpr rfl, h⟩
    · refine Option.bind_eq_some_iff.mpr ⟨body, dropClosing?_eq_some.mpr rfl, ?_⟩
      rw [if_neg (by simpa using hquote)]

/-- No literal stands for a zero that spells none. -/
theorem nul_not_mem_literalText? (hs : Plain s) (h : literalText? s = some t) : '\x00' ∉ t := by
  have hbody {c : Char} {body : List Char} : body <:+: c :: (body ++ [c]) := ⟨[c], [c], by simp⟩
  rcases literalText?_eq_some.mp h with ⟨body, rfl, hvalue⟩ | ⟨body, rfl, -, rfl⟩
  · exact nul_not_mem_unescape? (hs.part hbody) hvalue
  · intro hmem
    exact (hs.part hbody).nul (List.mem_filter.mp hmem).1

/-! ## Line feeds -/

/-- An escape is a character and digits behind it, or none. -/
theorem exists_of_escape? {c : Char} {n : Nat} (h : escape? s = some (c, n)) :
    ∃ first ds rest, s = first :: (ds ++ rest) ∧ n = ds.length + 1 ∧ first ≠ '\n' ∧ ∀ d ∈ ds, isDigit d = true := by
  cases s with
  | nil => cases h
  | cons first s =>
    have hspelt {base count k : Nat} {rest : List Char} {value? : Option Nat} (hbase : base ≤ 16)
        (hk : (value?.bind charAt?).map (·, k) = some (c, n)) (hvalue : ∀ v ∈ value?, numeral? base count rest = some v) :
        n = k ∧ (rest.take count).length = count ∧ ∀ d ∈ rest.take count, isDigit d = true := by
      obtain ⟨d, hd, he⟩ := Option.map_eq_some_iff.mp hk
      cases he
      obtain ⟨value, hv, -⟩ := Option.bind_eq_some_iff.mp hd
      exact ⟨rfl, digits_of_numeral? hbase (hvalue value hv)⟩
    have hlong {count : Nat} (hcount : (s.take count).length = count ∧ ∀ d ∈ s.take count, isDigit d = true) (hn : n = count + 1)
        (hfirst : first ≠ '\n') : ∃ first' ds rest, first :: s = first' :: (ds ++ rest) ∧ n = ds.length + 1 ∧ first' ≠ '\n' ∧
          ∀ d ∈ ds, isDigit d = true :=
      ⟨first, s.take count, s.drop count, by rw [List.take_append_drop], by rw [hcount.1, hn], hfirst, hcount.2⟩
    simp only [escape?] at h
    split at h
    · rename_i d hd
      cases h
      refine ⟨first, [], s, rfl, rfl, ?_, List.forall_mem_nil _⟩
      rintro rfl
      cases hd
    · split at h
      · obtain ⟨rfl, hdigits⟩ := hspelt (by decide) h fun v hv => hv
        exact hlong hdigits rfl (by decide)
      · obtain ⟨rfl, hdigits⟩ := hspelt (by decide) h fun v hv => hv
        exact hlong hdigits rfl (by decide)
      · obtain ⟨rfl, hdigits⟩ := hspelt (by decide) h fun v hv => hv
        exact hlong hdigits rfl (by decide)
      · -- the first of three octal digits stands where the letters of the others do
        obtain ⟨rfl, hlength, hdigits⟩ := hspelt (by decide) h fun v hv => (Option.filter_eq_some_iff.mp hv).1
        rw [List.take_succ_cons] at hlength hdigits
        obtain ⟨hfirst, hdigits⟩ := List.forall_mem_cons.mp hdigits
        refine hlong ⟨Nat.succ.inj hlength, hdigits⟩ rfl ?_
        rintro rfl
        cases hfirst

theorem newline_not_mem_unescape? (h : unescape? s = some t) : '\n' ∉ s := by
  fun_induction unescape? s generalizing t with
  | case1 => exact List.not_mem_nil
  | case2 => cases h
  | case3 => cases h
  | case4 => cases h
  | case5 s c n hescape ih =>
    obtain ⟨rest, hrest, -⟩ := Option.map_eq_some_iff.mp h
    obtain ⟨first, ds, after, rfl, rfl, hfirst, hdigits⟩ := exists_of_escape? hescape
    have hafter : '\n' ∉ after := by simpa using ih hrest
    have hds : '\n' ∉ ds := fun hmem => by cases hdigits _ hmem
    simp [Ne.symm hfirst, hds, hafter]
  | case6 c s _ hfeed _ ih =>
    obtain ⟨rest, hrest, -⟩ := Option.map_eq_some_iff.mp h
    rw [List.mem_cons, not_or]
    exact ⟨Ne.symm hfeed, ih hrest⟩

/-- No literal between quotes that stands for something is parted by a line feed, not even behind a backslash. -/
theorem newline_not_mem_interpreted (h : literalText? ('"' :: s) = some t) : '\n' ∉ '"' :: s := by
  obtain ⟨body, hbody, h⟩ | ⟨body, hbody, -⟩ := literalText?_eq_some.mp h
  · rw [hbody]
    simpa using newline_not_mem_unescape? h
  · exact absurd (List.cons.inj hbody).1 (by decide)

end PackageIndex.Source
