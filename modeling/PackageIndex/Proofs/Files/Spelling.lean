/-
  PackageIndex.Proofs.Files.Spelling — paths that are text, and what is read of the others.

  A slash is one byte, and no other character has it in its bytes. So it is all the same whether a path is
  cut and joined as text or as bytes (`pieces_ofString`, `ofString_join`), and what is read of a path has
  the pieces that are read of its own (`pieces_lossy`).
-/

import PackageIndex.Proofs.Files.ByteString
import PackageIndex.Proofs.Path
import PackageIndex.Proofs.Text.Bytes

namespace PackageIndex.ByteString

/-! ## Slashes -/

theorem mem_encodeChar_iff {c : Char} : slash ∈ Utf8.encodeChar c ↔ c = '/' := by
  rw [Utf8.ascii_mem_encodeChar (by decide), ← Char.toNat_inj]
  rfl

theorem mem_encode_iff {s : List Char} : slash ∈ Utf8.encode s ↔ '/' ∈ s := by
  simp only [Utf8.encode, List.mem_flatMap, mem_encodeChar_iff, exists_eq_right]

theorem encode_eq_nil {s : List Char} : Utf8.encode s = [] ↔ s = [] := by
  constructor
  · intro h
    rw [← Utf8.lossy_encode s, h, Utf8.lossy]
  · rintro rfl
    rfl

/-- The bytes of a character other than the slash have no slash at either end. -/
theorem head?_encode (s : List Char) : (Utf8.encode s).head? = some slash ↔ s.head? = some '/' := by
  cases s with
  | nil => simp [Utf8.encode]
  | cons c s =>
    rw [List.head?_cons, Option.some_inj]
    obtain ⟨a, tail, hc, -⟩ := Utf8.front_encodeChar c []
    have hhead : (Utf8.encode (c :: s)).head? = some a := by simp [Utf8.encode, hc]
    rw [hhead, Option.some_inj]
    constructor
    · rintro rfl
      exact mem_encodeChar_iff.mp (hc ▸ List.mem_cons_self)
    · rintro rfl
      have hone : Utf8.encodeChar '/' = [slash] := by decide
      rw [hone] at hc
      exact (List.cons.inj hc).1.symm

theorem getLast?_encode (s : List Char) : (Utf8.encode s).getLast? = some slash ↔ s.getLast? = some '/' := by
  rcases List.eq_nil_or_concat s with rfl | ⟨s, c, rfl⟩
  · simp [Utf8.encode]
  · have hne : Utf8.encodeChar c ≠ [] := by
      obtain ⟨a, tail, hc, -⟩ := Utf8.front_encodeChar c []
      simp [hc]
    have hlast : (Utf8.encode (s ++ [c])).getLast? = (Utf8.encodeChar c).getLast? := by
      rw [Utf8.encode_append, List.getLast?_append]
      simp [Utf8.encode, List.getLast?_eq_some_getLast hne]
    rw [List.concat_eq_append, hlast, List.getLast?_concat, Option.some_inj]
    constructor
    · exact fun h => mem_encodeChar_iff.mp (List.mem_of_getLast? h)
    · rintro rfl
      decide

theorem encode_intercalate (l : List (List Char)) :
    Utf8.encode (['/'].intercalate l) = [slash].intercalate (l.map Utf8.encode) := by
  induction l with
  | nil => rfl
  | cons s l ih =>
    cases l with
    | nil => simp
    | cons s' l =>
      rw [List.map_cons] at ih
      rw [List.intercalate_cons_cons, Utf8.encode_append, Utf8.encode_append, ih, List.map_cons, List.map_cons,
        List.intercalate_cons_cons]
      rfl

/-! ## Paths -/

theorem pieces_ofString (s : String) :
    (s : ByteString).pieces = (Path.pieces s).map fun piece => (String.ofList piece : ByteString) := by
  have hpieces : ∀ piece ∈ (Path.pieces s).map Utf8.encode, slash ∉ piece :=
    List.forall_mem_map.mpr fun piece hpiece hmem => Path.not_mem_of_mem_splitOn hpiece (mem_encode_iff.mp hmem)
  have hne : (Path.pieces s).map Utf8.encode ≠ [] := by simp [Path.pieces]
  have hbytes : (s : ByteString).bytes = [slash].intercalate ((Path.pieces s).map Utf8.encode) := by
    rw [← encode_intercalate, Path.pieces, List.intercalate_splitOn]
    rfl
  rw [pieces, hbytes, List.splitOn_intercalate slash hpieces hne, List.map_map]
  refine List.map_congr_left fun piece _ => ?_
  show ByteString.mk _ = ByteString.mk (Utf8.encode (String.ofList piece).toList)
  rw [String.toList_ofList]

theorem isAbsolute_ofString (s : String) : (s : ByteString).isAbsolute = Path.isAbsolute s := by
  have hhead := head?_encode s.toList
  rw [Bool.eq_iff_iff]
  unfold isAbsolute Path.isAbsolute
  rw [beq_iff_eq, beq_iff_eq]
  exact hhead

theorem ofString_join (d s : String) : ((Path.join d s : String) : ByteString) = (d : ByteString).join s := by
  show ByteString.mk (Utf8.encode _) = ByteString.mk (Path.joinedBy slash (Utf8.encode d.toList) (Utf8.encode s.toList))
  rw [Path.toList_join]
  unfold Path.joinedBy
  simp only [head?_encode, getLast?_encode, encode_eq_nil]
  split
  · rfl
  · split
    · rw [Utf8.encode_append]
    · rw [Utf8.encode_append]
      rfl

theorem ofString_foldl (d : String) (names : List String) :
    ((names.foldl Path.join d : String) : ByteString) = (names.map ofString).foldl join d := by
  induction names generalizing d with
  | nil => rfl
  | cons n names ih => rw [List.foldl_cons, ih, ofString_join, List.map_cons, List.foldl_cons]

theorem ofString_intercalate (names : List String) :
    (("/".intercalate names : String) : ByteString) = spelt (names.map ofString) := by
  have hslash : "/".toList = ['/'] := by decide
  show ByteString.mk (Utf8.encode _) = ByteString.mk _
  rw [String.toList_intercalate, hslash, encode_intercalate, List.map_map, List.map_map]
  rfl

/-! ## Spelling -/

section

variable {names : List ByteString}

theorem pieces_spelt (h : ∀ n ∈ names, slash ∉ n.bytes) (hne : names ≠ []) : (spelt names).pieces = names := by
  have hnames : ∀ bytes ∈ names.map (·.bytes), slash ∉ bytes := List.forall_mem_map.mpr h
  show (([slash].intercalate (names.map (·.bytes))).splitOn slash).map ByteString.mk = names
  rw [List.splitOn_intercalate slash hnames (by simpa using hne), List.map_map]
  exact List.map_id _

/-- Where names spell a text each of them is one. -/
theorem isText_of_spelt {s : String} (h : ∀ n ∈ names, slash ∉ n.bytes) (hs : (s : ByteString) = spelt names) :
    ∀ n ∈ names, n.IsText := by
  intro n hn
  rw [← pieces_spelt h (List.ne_nil_of_mem hn), ← hs, pieces_ofString] at hn
  obtain ⟨piece, -, rfl⟩ := List.mem_map.mp hn
  exact isText_ofString _

theorem map_lossy (h : ∀ n ∈ names, n.IsText) : (names.map lossy).map ofString = names := by
  rw [List.map_map]
  exact List.map_congr_left h |>.trans (List.map_id names)

end

/-! ## Names -/

theorem isName_iff {s : String} : (s : ByteString).IsName ↔ Path.IsName s := by
  have hslash : slash ∉ (s : ByteString).bytes ↔ '/' ∉ s.toList := not_congr mem_encode_iff
  have hnul : 0 ∉ (s : ByteString).bytes ↔ '\x00' ∉ s.toList := not_congr (Utf8.zero_mem_ofString s)
  constructor
  · intro h
    exact ⟨fun he => h.ne_empty (by rw [he]), fun he => h.ne_dot (by rw [he]), fun he => h.ne_dots (by rw [he]),
      hslash.mp h.no_slash, hnul.mp h.no_nul⟩
  · intro h
    exact ⟨fun he => h.ne_empty (ofString_inj.mp he), fun he => h.ne_dot (ofString_inj.mp he),
      fun he => h.ne_dots (ofString_inj.mp he), hslash.mpr h.no_slash, hnul.mpr h.no_nul⟩

/-! ## What is read of paths -/

theorem lossy_intercalate (l : List (List UInt8)) :
    Utf8.lossy ([slash].intercalate l) = ['/'].intercalate (l.map Utf8.lossy) := by
  have hslash : Char.ofNat slash.toNat = '/' := by decide
  induction l with
  | nil =>
    show Utf8.lossy [] = []
    rw [Utf8.lossy]
  | cons s l ih =>
    cases l with
    | nil => simp
    | cons s' l =>
      rw [List.map_cons] at ih
      rw [List.intercalate_cons_cons, List.append_assoc, List.singleton_append, Utf8.lossy_append_ascii _ _ (by decide),
        ih, hslash, List.map_cons, List.map_cons, List.intercalate_cons_cons, List.append_assoc, List.singleton_append]

theorem pieces_lossy (b : ByteString) : Path.pieces b.lossy = b.pieces.map fun piece => Utf8.lossy piece.bytes := by
  have htext : b.lossy.toList = ['/'].intercalate ((b.bytes.splitOn slash).map Utf8.lossy) := by
    rw [← lossy_intercalate, List.intercalate_splitOn, lossy, String.toList_ofList]
  have hpieces : ∀ piece ∈ (b.bytes.splitOn slash).map Utf8.lossy, '/' ∉ piece := by
    refine List.forall_mem_map.mpr fun piece hpiece hmem => ?_
    have hslash : slash ∈ piece := Utf8.mem_of_mem_lossy hmem (by decide) slash (by decide)
    rw [List.splitOn_eq_splitOnP] at hpiece
    simpa using not_of_mem_splitOnP hpiece slash hslash
  have hne : (b.bytes.splitOn slash).map Utf8.lossy ≠ [] := by simp
  rw [Path.pieces, htext, List.splitOn_intercalate '/' hpieces hne, pieces, List.map_map]
  rfl

theorem isAbsolute_lossy (b : ByteString) : Path.isAbsolute b.lossy = b.isAbsolute := by
  have hslash : Char.ofNat slash.toNat = '/' := by decide
  have hhead : (Utf8.lossy b.bytes).head? = some '/' ↔ b.bytes.head? = some slash := by
    cases hb : b.bytes with
    | nil => simp [Utf8.lossy]
    | cons a rest =>
      constructor
      · intro h
        rw [Utf8.lossy] at h
        split at h
        · rename_i c n hfront
          cases h
          have hbytes : slash :: rest.drop (n - 1) = a :: rest := Utf8.encodeChar_of_front hfront
          rw [← hbytes]
          rfl
        · cases h
        · cases h
      · intro h
        cases h
        have hread := Utf8.lossy_append_ascii [] rest (x := slash) (by decide)
        rw [List.nil_append] at hread
        rw [hread, hslash, Utf8.lossy]
        rfl
  unfold Path.isAbsolute isAbsolute
  rw [Bool.eq_iff_iff, beq_iff_eq, beq_iff_eq, lossy, String.toList_ofList]
  exact hhead

theorem up_mem_components_lossy (b : ByteString) : .up ∈ Path.components b.lossy ↔ (".." : ByteString) ∈ b.pieces := by
  rw [Path.up_mem_components_iff, pieces_lossy, List.mem_map]
  constructor
  · rintro ⟨piece, hpiece, hread⟩
    have htext : piece.lossy = ".." := by rw [lossy, hread]
    rw [eq_of_lossy (by decide) htext] at hpiece
    exact hpiece
  · exact fun h => ⟨_, h, (Utf8.lossy_encode _).trans (by decide)⟩

/-! ## Zeros -/

theorem zero_not_mem_of_pieces {path : ByteString} (h : ∀ piece ∈ path.pieces, 0 ∉ piece.bytes) : 0 ∉ path.bytes := by
  intro hmem
  have hpath : [slash].intercalate (path.bytes.splitOn slash) = path.bytes := List.intercalate_splitOn _
  rw [← hpath] at hmem
  rcases mem_of_mem_intercalate hmem with hmem | ⟨piece, hpiece, hmem⟩
  · exact absurd hmem (by decide)
  · exact h _ (List.mem_map_of_mem hpiece) hmem

theorem nulFree_lossy {b : ByteString} (h : 0 ∉ b.bytes) : NulFree b.lossy :=
  nulFree_ofList.mpr fun hmem => h (Utf8.nul_of_lossy hmem)

/-! ## Relative paths -/

/-- A relative path that does not lead up, and holds no zero. -/
structure StaysBelow (b : ByteString) : Prop where
  ne_empty : b ≠ ""
  relative : b.isAbsolute = false
  no_up : (".." : ByteString) ∉ b.pieces
  no_nul : 0 ∉ b.bytes

namespace StaysBelow

variable {dir name : ByteString}

theorem join (h : dir.StaysBelow) (hname : name.IsName) : (dir.join name).StaysBelow where
  ne_empty := join_ne_empty h.ne_empty hname
  relative := (isAbsolute_join h.ne_empty hname).trans h.relative
  no_up := by
    obtain ⟨front, hpieces, hjoin⟩ := pieces_join h.ne_empty hname
    have hfront : ∀ piece ∈ front, piece ∈ dir.pieces := by
      rcases hpieces with hpieces | hpieces <;> simp +contextual [hpieces]
    rw [hjoin, List.mem_append, List.mem_singleton]
    rintro (hup | hup)
    · exact h.no_up (hfront _ hup)
    · exact hname.ne_dots hup.symm
  no_nul := zero_not_mem_join h.no_nul hname.no_nul

theorem foldl {names : List ByteString} (h : dir.StaysBelow) (hnames : ∀ n ∈ names, n.IsName) :
    (names.foldl ByteString.join dir).StaysBelow := by
  induction names generalizing dir with
  | nil => exact h
  | cons n names ih =>
    obtain ⟨hn, hnames⟩ := List.forall_mem_cons.mp hnames
    exact ih (h.join hn) hnames

/-- What is read of it has a place below any root. -/
theorem exists_relative? (h : dir.StaysBelow) (root : String) :
    ∃ rel, Path.relative? root dir.lossy = some rel ∧ NulFree rel := by
  have hrelative : Path.isAbsolute dir.lossy = false := (isAbsolute_lossy dir).trans h.relative
  obtain ⟨rel, hrel⟩ := Path.exists_relative? root hrelative fun hup => h.no_up ((up_mem_components_lossy dir).mp hup)
  exact ⟨rel, hrel, Path.nulFree_relative? hrelative (nulFree_lossy h.no_nul) hrel⟩

end StaysBelow

end PackageIndex.ByteString
