/-
  PackageIndex.Proofs.Files.ByteString — names, and paths that they are joined to.

  - `IsName.lossy`: what is read of a name is a name, be it that of another entry or of none.
  - `pieces_join`: a name is the last piece of what it is joined to.
-/

import PackageIndex.Files.ByteString
import PackageIndex.Proofs.Text.Decoding

namespace PackageIndex.ByteString

variable {b dir name : ByteString} {s : String}

/-! ## Text -/

@[simp] theorem lossy_ofString (s : String) : (s : ByteString).lossy = s := by
  rw [lossy, ofString, Utf8.ofString, Utf8.lossy_encode, String.ofList_toList]

theorem ofString_inj {t : String} : (s : ByteString) = t ↔ s = t := by
  constructor
  · intro h
    rw [← lossy_ofString s, h, lossy_ofString]
  · rintro rfl
    rfl

theorem isText_ofString (s : String) : (s : ByteString).IsText := by rw [IsText, lossy_ofString]

theorem bytes_lossy (b : ByteString) : (b.lossy : ByteString).bytes = Utf8.encode (Utf8.lossy b.bytes) := by
  show Utf8.encode (String.ofList _).toList = _
  rw [String.toList_ofList]

theorem mem_of_mem_lossy {x : UInt8} (hx : x.toNat < 0x80) (h : x ∈ (b.lossy : ByteString).bytes) : x ∈ b.bytes := by
  rw [bytes_lossy, Utf8.encode, List.mem_flatMap] at h
  obtain ⟨c, hc, hmem⟩ := h
  refine Utf8.mem_of_mem_lossy hc ?_ x hmem
  rintro rfl
  rw [Utf8.ascii_mem_encodeChar hx] at hmem
  have hreplacement : '\ufffd'.toNat = 0xFFFD := by decide
  omega

/-- Nothing else is read as a text without U+FFFD. -/
theorem eq_of_lossy (hs : '\ufffd' ∉ s.toList) (h : b.lossy = s) : b = s := by
  have hchars : '\ufffd' ∉ Utf8.lossy b.bytes := by
    rw [← h, lossy, String.toList_ofList] at hs
    exact hs
  have hbytes : (b.lossy : ByteString).bytes = b.bytes := by rw [bytes_lossy, Utf8.encode_lossy hchars]
  rw [← h]
  exact congrArg ByteString.mk hbytes.symm

/-! ## Names -/

theorem IsName.lossy (h : b.IsName) : (b.lossy : ByteString).IsName where
  ne_empty he := h.ne_empty (eq_of_lossy (by decide) (ofString_inj.mp he))
  ne_dot he := h.ne_dot (eq_of_lossy (by decide) (ofString_inj.mp he))
  ne_dots he := h.ne_dots (eq_of_lossy (by decide) (ofString_inj.mp he))
  no_slash hmem := h.no_slash (mem_of_mem_lossy (by decide) hmem)
  no_nul hmem := h.no_nul (mem_of_mem_lossy (by decide) hmem)

theorem bytes_ne_nil (h : b ≠ "") : b.bytes ≠ [] := fun he => h (congrArg ByteString.mk he)

/-! ## Joining -/

theorem join_ne_empty (hdir : dir ≠ "") (hname : name.IsName) : dir.join name ≠ "" := fun he =>
  Path.joinedBy_ne_nil (bytes_ne_nil hdir) hname.no_slash (congrArg bytes he)

theorem isAbsolute_join (hdir : dir ≠ "") (hname : name.IsName) : (dir.join name).isAbsolute = dir.isAbsolute := by
  rw [isAbsolute, join, Path.head?_joinedBy (bytes_ne_nil hdir) hname.no_slash, isAbsolute]

theorem zero_not_mem_join (hdir : 0 ∉ dir.bytes) (hname : 0 ∉ name.bytes) : 0 ∉ (dir.join name).bytes := by
  have hslash : 0 ≠ slash := by decide
  unfold join Path.joinedBy
  split
  · exact hname
  · split <;> simp [hdir, hname, hslash]

/-- A name is the last piece of what it is joined to; an empty piece in front of it is gone. -/
theorem pieces_join (hdir : dir ≠ "") (hname : name.IsName) :
    ∃ front, (dir.pieces = front ∨ dir.pieces = front ++ [("" : ByteString)]) ∧
    (dir.join name).pieces = front ++ [name] := by
  obtain ⟨first, front, hpieces, hjoined⟩ := Path.splitOn_joinedBy (bytes_ne_nil hdir) hname.no_slash
  refine ⟨(first :: front).map .mk, ?_, ?_⟩
  · unfold pieces
    rcases hpieces with hpieces | hpieces
    · exact Or.inl (by rw [hpieces])
    · exact Or.inr (by rw [hpieces, List.map_append]; rfl)
  · show ((Path.joinedBy slash dir.bytes name.bytes).splitOn slash).map _ = _
    rw [hjoined, List.map_append]
    rfl

end PackageIndex.ByteString
