/-
  PackageIndex.Proofs.Source.EmbedPlaces — where embeds stand in their source.

  Places are counted on from piece to piece. A quoted literal is taken for a part of one line,
  which it is not if a backslash goes with a line feed in it: that line feed is never counted,
  and whatever stands behind is numbered a line too low. Offsets are right all the same. So
  are the columns of embeds: a comment is read for them only where its line has begun
  behind a line feed that was counted.

  - `embedsOfPieces_cons`: what one piece adds, and where that leaves the next.
  - `Place.Trails.behind`: how many line feeds a place behind a piece misses.
  - `scan_embeds`: the embeds in the header of a file, and how far off their lines are.
  - `partedLiteral_line`: a file with an embed on line 9 that is told to be on line 8.
-/

import PackageIndex.Proofs.Source.Header
import PackageIndex.Proofs.Source.Place

namespace PackageIndex.Source

variable {filename : String} {before s : List Char} {missed : Nat} {clear : Bool} {p : Place}

/-! ## Patterns -/

/-- Something of a text that begins at `offset` stands at `at_`. -/
def StandsWithin (offset : Nat) (s : List Char) (at_ : Nat) : Prop :=
  ∃ front back, s = front ++ back ∧ back ≠ [] ∧ at_ = offset + Utf8.size front

theorem StandsWithin.behind {lead : List Char} {offset at_ : Nat} (h : StandsWithin (offset + Utf8.size lead) s at_) :
    StandsWithin offset (lead ++ s) at_ := by
  obtain ⟨front, back, rfl, hback, rfl⟩ := h
  exact ⟨lead ++ front, back, (List.append_assoc _ _ _).symm, hback, by rw [Utf8.size_append, Nat.add_assoc]⟩

theorem standsWithin_head {offset : Nat} {c : Char} : StandsWithin offset (c :: s) offset :=
  ⟨[], c :: s, rfl, List.cons_ne_nil c s, rfl⟩

theorem standsWithin_embedPatterns (offset : Nat) (s : List Char) :
    ∀ r ∈ embedPatterns offset s, StandsWithin offset s r.1 := by
  fun_induction embedPatterns offset s with
  | case1 => simp
  | case2 offset c s _ ih =>
    intro r hr
    have hbehind : StandsWithin offset ([c] ++ s) r.1 := (ih r hr).behind
    exact hbehind
  | case3 => simp
  | case4 => simp
  | case5 offset c s _ _ n _ pattern _ ih =>
    refine List.forall_mem_cons.mpr ⟨standsWithin_head, fun r hr => ?_⟩
    have hbehind := (ih r hr).behind
    rwa [List.cons_append, List.take_append_drop] at hbehind
  | case6 offset c s _ _ bare ih =>
    refine List.forall_mem_cons.mpr ⟨standsWithin_head, fun r hr => ?_⟩
    have hbehind := (ih r hr).behind
    rwa [List.cons_append, List.takeWhile_append_dropWhile] at hbehind

theorem pairwise_embedPatterns (offset : Nat) (s : List Char) : (embedPatterns offset s).Pairwise (·.1 < ·.1) := by
  have hbehind {at_ : Nat} {c : Char} {lead rest : List Char} :
      ∀ r ∈ embedPatterns (at_ + Utf8.size (c :: lead)) rest, at_ < r.1 := by
    intro r hr
    obtain ⟨front, -, -, -, hat⟩ := standsWithin_embedPatterns _ _ r hr
    have := Utf8.size_pos (List.cons_ne_nil c lead)
    omega
  fun_induction embedPatterns offset s with
  | case1 => exact List.Pairwise.nil
  | case2 _ _ _ _ ih => exact ih
  | case3 => exact List.Pairwise.nil
  | case4 => exact List.Pairwise.nil
  | case5 _ _ _ _ _ _ _ _ _ ih => exact List.Pairwise.cons hbehind ih
  | case6 _ _ _ _ _ _ ih => exact List.Pairwise.cons hbehind ih

/-! ## Comments -/

theorem along_eq (p : Place) (s : List Char) :
    p.along s = { p with offset := p.offset + Utf8.size s, column := p.column + Utf8.size s } := by
  induction s generalizing p with
  | nil => rfl
  | cons c s ih =>
    show (p.pass c).along s = _
    rw [ih]
    simp only [Place.pass, Utf8.size, Nat.add_assoc]

theorem size_directive : Utf8.size directive = directive.length := by decide

/-- An embed has the place that its pattern has in the comment. -/
theorem place_of_mem_embedsOfComment {e : Embed} (hs : '\n' ∉ s) (h : e ∈ embedsOfComment filename p s) :
    ∃ front back, s = front ++ back ∧ back ≠ [] ∧ e.position = (p.after front).position filename := by
  unfold embedsOfComment at h
  split at h
  · rename_i c args hdirective
    split at h
    · obtain ⟨⟨at_, pattern⟩, hpattern, rfl⟩ := List.mem_map.mp h
      obtain ⟨front, back, hargs, hback, rfl⟩ := standsWithin_embedPatterns _ _ _ hpattern
      obtain ⟨returns, hreturns⟩ := trimEnd_isPrefix (· == '\r') s
      have hwhole : s = (directive ++ front) ++ (back ++ returns) := by
        rw [← hreturns, ← append_of_isPrefixOf? hdirective, hargs]
        simp only [List.append_assoc]
      refine ⟨directive ++ front, back ++ returns, hwhole, List.append_ne_nil_of_left_ne_nil hback returns, ?_⟩
      have hfront : '\n' ∉ directive ++ front := fun hmem => hs (by rw [hwhole]; exact List.mem_append_left _ hmem)
      rw [← along_eq_after hfront, along_eq, Utf8.size_append, size_directive]
      rfl
    · cases h
  · cases h

theorem pairwise_embedsOfComment (hsize : p.offset + Utf8.size s < 0x100000000) :
    (embedsOfComment filename p s).Pairwise (fun e f => e.position.offset < f.position.offset) := by
  unfold embedsOfComment
  split
  · rename_i c args hdirective
    split
    · rw [List.pairwise_map]
      refine (pairwise_embedPatterns _ _).imp_of_mem fun {a b} ha hb hab => ?_
      have hbound : ∀ r ∈ embedPatterns directive.length (c :: args), p.offset + r.1 < 0x100000000 := by
        intro r hr
        obtain ⟨front, back, hargs, -, hat⟩ := standsWithin_embedPatterns _ _ r hr
        obtain ⟨returns, hreturns⟩ := trimEnd_isPrefix (· == '\r') s
        rw [← hreturns, ← append_of_isPrefixOf? hdirective, hargs] at hsize
        simp only [Utf8.size_append, size_directive] at hsize
        omega
      rw [UInt32.lt_iff_toNat_lt]
      rw [toNat_of_lt (hbound a ha), toNat_of_lt (hbound b hb)]
      omega
    · exact List.Pairwise.nil
  · exact List.Pairwise.nil

/-! ## Pieces -/

def Place.behind (p : Place) : Piece → Place
  | .quoted s => p.along s
  | q => p.after q.text

/-- Whether a comment behind the piece would be read for embeds. -/
def Piece.clears (clear : Bool) : Piece → Bool
  | .newline => true
  | .space _ => clear
  | .lineComment _ => clear
  | _ => false

/-- The line feeds of a piece that are not counted. -/
def Piece.uncounted : Piece → Nat
  | .quoted s => s.count '\n'
  | _ => 0

def missedFeeds : List Piece → Nat
  | [] => 0
  | q :: ps => q.uncounted + missedFeeds ps

def textOf (ps : List Piece) : List Char := ps.flatMap Piece.text

def embedsOfPiece (filename : String) (p : Place) (clear : Bool) : Piece → List Embed
  | .lineComment s => if clear then embedsOfComment filename p s else []
  | _ => []

theorem embedsOfPieces_cons (filename : String) (p : Place) (clear : Bool) (q : Piece) (ps : List Piece) :
    embedsOfPieces filename p clear (q :: ps) =
      embedsOfPiece filename p clear q ++ embedsOfPieces filename (p.behind q) (q.clears clear) ps := by
  cases q <;> rfl

theorem Place.Trails.behind (h : p.Trails before missed clear) (q : Piece) :
    (p.behind q).Trails (before ++ q.text) (missed + q.uncounted) (q.clears clear) := by
  cases q with
  | newline =>
    have hnext := h.next '\n'
    rwa [beq_self_eq_true, Bool.or_true] at hnext
  | space c => exact h.after [c]
  | lineComment s => exact h.after s
  | block s => exact (h.after s).anyLine
  | quoted s => exact h.along s
  | other c => exact (h.after [c]).anyLine

theorem missedFeeds_snoc (ps : List Piece) (q : Piece) : missedFeeds (ps ++ [q]) = missedFeeds ps + q.uncounted := by
  induction ps with
  | nil => exact Nat.add_comm _ _
  | cons r ps ih => rw [List.cons_append, missedFeeds, missedFeeds, ih, Nat.add_assoc]

theorem uncounted_eq_zero_iff {q : Piece} : q.uncounted = 0 ↔ ∀ literal, .quoted literal = q → '\n' ∉ literal := by
  cases q with
  | quoted s => simpa [Piece.uncounted] using List.count_eq_zero
  | _ => simp [Piece.uncounted]

theorem missedFeeds_eq_zero_iff {ps : List Piece} : missedFeeds ps = 0 ↔ ∀ literal, .quoted literal ∈ ps → '\n' ∉ literal := by
  induction ps with
  | nil => simp [missedFeeds]
  | cons q ps ih => simp [missedFeeds, uncounted_eq_zero_iff, ih, or_imp, forall_and]

/-- A text that ends within a line comment, behind the pieces. -/
def EndsInComment (all read : List Piece) (before : List Char) : Prop :=
  ∃ front back rest, all = read ++ .lineComment (front ++ back) :: rest ∧ back ≠ [] ∧ before = textOf read ++ front

theorem embedsOfPiece_places {q : Piece} (filename : String) (h : p.Trails before missed clear)
    (hline : ∀ s, q = .lineComment s → '\n' ∉ s) (hsize : Utf8.size (before ++ q.text) < 0x100000000) :
    (embedsOfPiece filename p clear q).Pairwise (fun e f => e.position.offset < f.position.offset) ∧
      ∀ e ∈ embedsOfPiece filename p clear q, ∃ front back, q = .lineComment (front ++ back) ∧ back ≠ [] ∧
        e.position.TrailsBehind (before ++ front) missed := by
  cases q with
  | lineComment s =>
    simp only [embedsOfPiece]
    split
    · rename_i hclear
      subst hclear
      refine ⟨pairwise_embedsOfComment (by rw [h.offset, ← Utf8.size_append]; exact hsize), fun e he => ?_⟩
      obtain ⟨front, back, rfl, hback, hposition⟩ := place_of_mem_embedsOfComment (hline s rfl) he
      refine ⟨front, back, rfl, hback, hposition ▸ (h.after front).position filename ?_⟩
      have := Utf8.size_pos hback
      simp only [Piece.text, Utf8.size_append] at hsize ⊢
      omega
    · exact ⟨List.Pairwise.nil, by simp⟩
  | _ => exact ⟨List.Pairwise.nil, by simp [embedsOfPiece]⟩

/-- Of pieces that begin behind others; every embed among them stands behind those. -/
theorem embedsOfPieces_places {read ps : List Piece} (filename : String) (h : p.Trails (textOf read) (missedFeeds read) clear)
    (hlines : ∀ s, .lineComment s ∈ ps → '\n' ∉ s) (hsize : Utf8.size (textOf (read ++ ps)) < 0x100000000) :
    (embedsOfPieces filename p clear ps).Pairwise (fun e f => e.position.offset < f.position.offset) ∧
      ∀ e ∈ embedsOfPieces filename p clear ps, Utf8.size (textOf read) ≤ e.position.offset.toNat ∧
        ∃ read' before, EndsInComment (read ++ ps) read' before ∧ e.position.TrailsBehind before (missedFeeds read') := by
  induction ps generalizing read p clear with
  | nil => exact ⟨List.Pairwise.nil, by simp [embedsOfPieces]⟩
  | cons q ps ih =>
    have hall : read ++ q :: ps = read ++ [q] ++ ps := (List.append_cons read q ps)
    have htext : textOf (read ++ [q]) = textOf read ++ q.text := by simp [textOf]
    have hbehind : (p.behind q).Trails (textOf (read ++ [q])) (missedFeeds (read ++ [q])) (q.clears clear) := by
      rw [htext, missedFeeds_snoc]
      exact h.behind q
    have hfront : Utf8.size (textOf read ++ q.text) < 0x100000000 := by
      simp only [textOf, List.flatMap_append, List.flatMap_cons, Utf8.size_append] at hsize ⊢
      omega
    obtain ⟨hfirst, hfirstPlaces⟩ := embedsOfPiece_places filename h
      (fun s hs => hlines s (hs ▸ List.mem_cons_self)) hfront
    rw [hall] at hsize ⊢
    obtain ⟨hmore, hmorePlaces⟩ := ih hbehind (fun s hs => hlines s (List.mem_cons_of_mem q hs)) hsize
    rw [embedsOfPieces_cons]
    refine ⟨List.pairwise_append.mpr ⟨hfirst, hmore, fun e he f hf => ?_⟩,
      List.forall_mem_append.mpr ⟨fun e he => ?_, fun e he => ?_⟩⟩
    · obtain ⟨front, back, rfl, hback, hplace⟩ := hfirstPlaces e he
      have hle := (hmorePlaces f hf).1
      have := Utf8.size_pos hback
      rw [htext] at hle
      rw [UInt32.lt_iff_toNat_lt, hplace.offset]
      simp only [Piece.text, Utf8.size_append] at hle ⊢
      omega
    · obtain ⟨front, back, rfl, hback, hplace⟩ := hfirstPlaces e he
      refine ⟨?_, read, textOf read ++ front, ⟨front, back, ps, hall.symm, hback, rfl⟩, hplace⟩
      rw [hplace.offset, Utf8.size_append]
      omega
    · obtain ⟨hle, hplace⟩ := hmorePlaces e he
      refine ⟨?_, hplace⟩
      rw [htext, Utf8.size_append] at hle
      omega

theorem newline_not_mem_lineComment {source s : List Char} (h : .lineComment s ∈ pieces source) : '\n' ∉ s := by
  fun_induction pieces source with
  | case1 => cases h
  | case3 t ih =>
    rcases List.mem_cons.mp h with heq | h
    · obtain rfl := Piece.lineComment.inj heq
      have hline := not_mem_takeWhile_ne '\n' t
      simpa using hline
    · exact ih h
  | case4 => simp at h
  | case6 => simp at h
  | case2 _ ih | case5 _ _ _ _ ih | case7 _ _ _ _ ih | case8 _ _ _ _ _ _ _ ih | case9 _ _ _ _ _ _ _ _ ih | case10 _ _ _ _ _ _ _ _ ih =>
    exact ih (by simpa using h)

theorem EndsInComment.isPrefix {source : List Char} {read : List Piece} (h : EndsInComment (pieces source) read before) :
    before <+: source := by
  obtain ⟨front, back, rest, hpieces, -, rfl⟩ := h
  rw [← flatMap_text_pieces source, hpieces]
  exact ⟨back ++ textOf rest, by simp [textOf, Piece.text]⟩

/-! ## Headers -/

/-- Lines are those of the source exactly behind literals without line feeds. -/
theorem scan_embeds {name path : String} {source : List Char} {h : Header} (hsize : (Utf8.encode source).length < 0x100000000)
    (hscan : Header.scan name path (Utf8.encode source) = .ok h) :
    h.embeds.Pairwise (fun e f => e.position.offset < f.position.offset) ∧
      ∀ e ∈ h.embeds, ∃ read before, EndsInComment (pieces source) read before ∧ before <+: source ∧
        e.position.TrailsBehind before (missedFeeds read) ∧
        (e.position.StandsBehind before ↔ ∀ literal, .quoted literal ∈ read → '\n' ∉ literal) := by
  rw [Utf8.length_encode] at hsize
  rcases (declared_of_scan hscan).2 with hembeds | hembeds
  · rw [hembeds]
    exact ⟨List.Pairwise.nil, by simp⟩
  · have hstart : ({} : Place).Trails (textOf []) (missedFeeds []) true := ⟨rfl, rfl, fun _ => rfl⟩
    have hpieces : Utf8.size (textOf ([] ++ pieces source)) < 0x100000000 := by
      rwa [List.nil_append, textOf, flatMap_text_pieces]
    obtain ⟨hpairwise, hplaces⟩ := embedsOfPieces_places path hstart
      (fun s hs => newline_not_mem_lineComment hs) hpieces
    rw [hembeds]
    refine ⟨hpairwise, fun e he => ?_⟩
    obtain ⟨-, read, before, hends, htrails⟩ := hplaces e he
    exact ⟨read, before, hends, hends.isPrefix, htrails, htrails.standsBehind_iff.trans missedFeeds_eq_zero_iff⟩

def partedLiteral : List Char :=
  "package p\n\nimport _ \"embed\"\n\n//go:embed a.txt\nvar s = \"\\\n\"\n\n//go:embed b.txt\nvar t string\n".toList

def partedLiteralHeader : Header where
  packageName := "p"
  imports := [{ path := "embed", position := ⟨"m/a.go", 18, 3, 8⟩ }]
  embeds := [{ pattern := "a.txt", position := ⟨"m/a.go", 40, 5, 12⟩ }, { pattern := "b.txt", position := ⟨"m/a.go", 71, 8, 12⟩ }]

theorem partedLiteral_scanned : (Utf8.encode partedLiteral).length < 0x100000000 ∧
    Header.scan "a.go" "m/a.go" (Utf8.encode partedLiteral) = .ok partedLiteralHeader :=
  ⟨by decide +kernel, by decide +kernel⟩

theorem partedLiteral_embeds : (Utf8.encode partedLiteral).length < 0x100000000 ∧
    Header.scan "a.go" "m/a.go" (Utf8.encode partedLiteral) = .ok partedLiteralHeader ∧
    partedLiteralHeader.embeds.Pairwise (fun e f => e.position.offset < f.position.offset) ∧
    ∀ e ∈ partedLiteralHeader.embeds, ∃ read before, EndsInComment (pieces partedLiteral) read before ∧ before <+: partedLiteral ∧
      e.position.TrailsBehind before (missedFeeds read) ∧
      (e.position.StandsBehind before ↔ ∀ literal, .quoted literal ∈ read → '\n' ∉ literal) := by
  obtain ⟨hsize, hscan⟩ := partedLiteral_scanned
  exact ⟨hsize, hscan, scan_embeds hsize hscan⟩

/-- The second embed is on line 9, and is told to be on line 8. -/
theorem partedLiteral_line : (Utf8.encode partedLiteral).length < 0x100000000 ∧
    Header.scan "a.go" "m/a.go" (Utf8.encode partedLiteral) = .ok partedLiteralHeader ∧
    ¬ ∀ e ∈ partedLiteralHeader.embeds, ∃ before, before <+: partedLiteral ∧ e.position.StandsBehind before := by
  obtain ⟨hsize, hscan⟩ := partedLiteral_scanned
  have hnowhere : ¬ ∀ e ∈ partedLiteralHeader.embeds, ∃ before ∈ partedLiteral.inits, e.position.StandsBehind before := by
    decide +kernel
  refine ⟨hsize, hscan, ?_⟩
  simpa only [← List.mem_inits] using hnowhere

end PackageIndex.Source
