/-
  PackageIndex.Proofs.Source.Directives — what counts as a `//go:embed` comment.

  A text that is put together of items is cut into these again: each is passed over to exactly
  its end, be it a literal with quotes behind backslashes or a comment with quotes in it. So
  the directives are the line comments that are items, and of these the ones that begin
  their line. What looks like one within a literal, a block comment or behind other
  text is none.

  - `pieces_items`: the pieces of such a text are its items.
  - `embedsOfSource_items`: its embeds are those of its directives, at their places.
-/

import PackageIndex.Proofs.Source.EmbedPlaces
import PackageIndex.Proofs.Source.Lexing

namespace PackageIndex.Source

/-! ## Items -/

/-- A character between quotes: it stands for itself, or there is a backslash before it. -/
inductive LiteralPart (quote : Char) where
  | plain (c : Char) (h : c ≠ '\n' ∧ c ≠ '\\' ∧ c ≠ quote)
  | escaped (c : Char) (h : c ≠ '\n')

def LiteralPart.text {quote : Char} : LiteralPart quote → List Char
  | .plain c _ => [c]
  | .escaped c _ => ['\\', c]

inductive Item where
  | newline
  | blank (c : Char) (h : c = ' ' ∨ c = '\t' ∨ c = '\r')
  | lineComment (body : List Char) (h : '\n' ∉ body)
  | blockComment (body : List Char) (h : ¬ ['*', '/'] <:+: body)
  | raw (body : List Char) (h : '`' ∉ body)
  /-- A string or rune literal. -/
  | quoted (quote : Char) (h : quote = '"' ∨ quote = '\'') (parts : List (LiteralPart quote))
  | other (c : Char) (h : c ∉ ['\n', ' ', '\t', '\r', '"', '\'', '`'])

namespace Item

def text : Item → List Char
  | .newline => ['\n']
  | .blank c _ => [c]
  | .lineComment body _ => '/' :: '/' :: body
  | .blockComment body _ => '/' :: '*' :: body ++ ['*', '/']
  | .raw body _ => '`' :: body ++ ['`']
  | .quoted quote _ parts => quote :: parts.flatMap LiteralPart.text ++ [quote]
  | .other c _ => [c]

/-- A text that may come behind the item: a comment goes to the end of its line, and a slash begins none. -/
def Fits (rest : List Char) : Item → Prop
  | .lineComment _ _ => Stops (· ≠ '\n') rest
  | .other c _ => c = '/' → Stops (fun d => d = '/' ∨ d = '*') rest
  | _ => True

end Item

def itemsText (items : List Item) : List Char := items.flatMap Item.text

def Fitting : List Item → Prop
  | [] => True
  | i :: items => i.Fits (itemsText items) ∧ Fitting items

instance (i : Item) (rest : List Char) : Decidable (i.Fits rest) :=
  match i with
  | .lineComment _ _ => inferInstanceAs (Decidable (Stops (· ≠ '\n') rest))
  | .other c _ => inferInstanceAs (Decidable (c = '/' → Stops (fun d => d = '/' ∨ d = '*') rest))
  | .newline | .blank _ _ | .blockComment _ _ | .raw _ _ | .quoted _ _ _ => isTrue trivial

instance decidableFitting : (items : List Item) → Decidable (Fitting items)
  | [] => isTrue trivial
  | i :: items =>
    have := decidableFitting items
    inferInstanceAs (Decidable (i.Fits (itemsText items) ∧ Fitting items))

/-! ## Directives -/

/-- Only spaces, tabs and carriage returns stand since the last line feed. -/
def onlyBlanks (before : List Char) : Bool := (openLine before).all fun c => c = ' ' ∨ c = '\t' ∨ c = '\r'

def embedArguments? (comment : List Char) : Option (List Char) :=
  (directive.isPrefixOf? (trimEnd (· == '\r') comment)).filter fun args => args.head? = some ' ' ∨ args.head? = some '\t'

/-- An embed for each pattern among the arguments of a comment that stands behind a text. -/
def embedsAmong (filename : String) (before args : List Char) : List Embed :=
  (embedPatterns 0 args).map fun (at_, pattern) =>
    { pattern := String.ofList pattern
      position :=
        { filename
          offset := (Utf8.size (before ++ directive) + at_).toUInt32
          line := (before.count '\n' + 1).toUInt32
          column := (Utf8.size (openLine before ++ directive) + 1 + at_).toUInt32 } }

def Item.embeds (filename : String) (before : List Char) : Item → List Embed
  | .lineComment body _ =>
    if onlyBlanks before then ((embedArguments? ('/' :: '/' :: body)).map (embedsAmong filename before)).getD [] else []
  | _ => []

def embedsOfItems (filename : String) (before : List Char) : List Item → List Embed
  | [] => []
  | i :: items => i.embeds filename before ++ embedsOfItems filename (before ++ i.text) items

/-! ## Cutting -/

variable {rest before : List Char}

def Item.piece : Item → Piece
  | .newline => .newline
  | .blank c _ => .space c
  | .lineComment body _ => .lineComment ('/' :: '/' :: body)
  | .blockComment body _ => .block ('/' :: '*' :: body ++ ['*', '/'])
  | .raw body _ => .block ('`' :: body ++ ['`'])
  | .quoted quote _ parts => .quoted (quote :: parts.flatMap LiteralPart.text ++ [quote])
  | .other c _ => .other c

theorem quotedLength_parts {quote : Char} (hquote : quote ≠ '\\' ∧ quote ≠ '\n') (parts : List (LiteralPart quote))
    (rest : List Char) :
    quotedLength quote (parts.flatMap LiteralPart.text ++ quote :: rest) = (parts.flatMap LiteralPart.text).length + 1 := by
  induction parts with
  | nil =>
    rw [List.flatMap_nil, List.nil_append, quotedLength]
    · simp [hquote.2]
    · exact fun h => absurd h hquote.1
    · exact fun _ _ h => absurd h hquote.1
  | cons part parts ih =>
    rw [List.flatMap_cons]
    cases part with
    | plain c h =>
      obtain ⟨hfeed, hslash, hc⟩ := h
      simp only [LiteralPart.text, List.cons_append, List.nil_append, List.length_cons]
      rw [quotedLength, if_neg hfeed, if_neg hc, ih]
      · exact fun h => absurd h hslash
      · exact fun _ _ h => absurd h hslash
    | escaped c h =>
      simp only [LiteralPart.text, List.cons_append, List.nil_append, List.length_cons]
      rw [quotedLength, ih]

theorem pieces_quoted {quote : Char} {body : List Char} (hquote : quote = '"' ∨ quote = '\'')
    (h : quotedLength quote (body ++ quote :: rest) = body.length + 1) :
    pieces (quote :: (body ++ quote :: rest)) = .quoted (quote :: (body ++ [quote])) :: pieces rest := by
  have htake : (body ++ quote :: rest).take (body.length + 1) = body ++ [quote] := by
    simp [List.take_append, List.take_of_length_le]
  have hdrop : (body ++ quote :: rest).drop (body.length + 1) = rest := by simp [List.drop_append]
  rcases hquote with rfl | rfl <;> simp [pieces, h, htake, hdrop]

/-- What stands in front of a text is its first piece, if the text after it does not go on with it. -/
theorem pieces_item (i : Item) (h : i.Fits rest) : pieces (i.text ++ rest) = i.piece :: pieces rest := by
  cases i with
  | newline =>
    simp only [Item.text, Item.piece, List.singleton_append]
    rw [pieces]
  | blank c hc => rcases hc with rfl | rfl | rfl <;> simp [Item.text, Item.piece, pieces]
  | lineComment body hbody =>
    obtain ⟨htake, hdrop⟩ := takeWhile_line hbody h
    simp only [Item.text, Item.piece, List.cons_append]
    rw [pieces, htake, hdrop]
  | blockComment body hbody =>
    have hfound : cutAt? ['*', '/'] (body ++ '*' :: '/' :: rest) = some (body, rest) := cutAt?_pair (by decide) hbody rest
    simp only [Item.text, Item.piece, List.cons_append, List.append_assoc, List.nil_append]
    rw [pieces]
    split
    · rename_i hcut
      cases hfound.symm.trans hcut
    · rename_i hcut
      cases hfound.symm.trans hcut
      rfl
  | raw body hbody =>
    have hfound : cutAt? ['`'] (body ++ '`' :: rest) = some (body, rest) := cutAt?_append hbody [] rest
    simp only [Item.text, Item.piece, List.cons_append, List.append_assoc, List.nil_append]
    rw [pieces]
    split
    · rename_i hcut
      cases hfound.symm.trans hcut
    · rename_i hcut
      cases hfound.symm.trans hcut
      rfl
  | quoted quote hquote parts =>
    have hmark : quote ≠ '\\' ∧ quote ≠ '\n' := by rcases hquote with rfl | rfl <;> decide
    simp only [Item.text, Item.piece, List.cons_append, List.append_assoc, List.nil_append]
    exact pieces_quoted hquote (quotedLength_parts hmark parts rest)
  | other c hc =>
    simp only [List.mem_cons, List.not_mem_nil, or_false, not_or] at hc
    simp only [Item.text, Item.piece, List.cons_append, List.nil_append]
    rw [pieces]
    · simp [hc]
    · exact hc.1
    · rintro s rfl rfl
      exact absurd (h rfl '/' rfl) (by decide)
    · rintro s rfl rfl
      exact absurd (h rfl '*' rfl) (by decide)
    · exact hc.2.2.2.2.2.2

theorem pieces_items {items : List Item} (h : Fitting items) : pieces (itemsText items) = items.map Item.piece := by
  induction items with
  | nil => rw [List.map_nil, itemsText, List.flatMap_nil, pieces]
  | cons i items ih =>
    have htext : itemsText (i :: items) = i.text ++ itemsText items := List.flatMap_cons
    rw [htext, pieces_item i h.1, ih h.2, List.map_cons]

/-! ## Lines -/

theorem newline_not_mem_quoted {quote : Char} (h : quote = '"' ∨ quote = '\'') (parts : List (LiteralPart quote)) :
    '\n' ∉ quote :: parts.flatMap LiteralPart.text ++ [quote] := by
  have hquote : quote ≠ '\n' := by rcases h with rfl | rfl <;> decide
  have hparts : '\n' ∉ parts.flatMap LiteralPart.text := by
    rw [List.mem_flatMap]
    rintro ⟨part, -, hpart⟩
    cases part with
    | plain c hc => exact hc.1 (List.mem_singleton.mp hpart).symm
    | escaped c hc => simp [LiteralPart.text, Ne.symm hc] at hpart
  simp [Ne.symm hquote, hparts]

/-- The place behind an item is counted right. -/
theorem behind_piece (before : List Char) (i : Item) : (placeBehind before).behind i.piece = placeBehind (before ++ i.text) := by
  cases i with
  | quoted quote h parts =>
    show (placeBehind before).along _ = _
    rw [along_eq_after (newline_not_mem_quoted h parts), after_placeBehind]
    rfl
  | _ => exact after_placeBehind before _

theorem onlyBlanks_of_getLast? {s : List Char} {c : Char} (before : List Char) (hlast : s.getLast? = some c)
    (hc : c ∉ ['\n', ' ', '\t', '\r']) : onlyBlanks (before ++ s) = false := by
  obtain ⟨front, rfl⟩ := List.getLast?_eq_some_iff.mp hlast
  simp only [List.mem_cons, List.not_mem_nil, or_false, not_or] at hc
  rw [onlyBlanks, ← List.append_assoc, openLine_snoc, if_neg hc.1, List.all_append]
  simp [hc]

theorem eq_newline_of_head? {i : Item} (h : i.text.head? = some '\n') : i = .newline := by
  cases i with
  | newline => rfl
  | blank c hc => rcases hc with rfl | rfl | rfl <;> cases h
  | quoted quote hquote _ => rcases hquote with rfl | rfl <;> cases h
  | other c hc =>
    obtain rfl := Option.some.inj h
    exact absurd List.mem_cons_self hc
  | _ => cases h

/-- Whether the line is clear is told as the text before the items has it, unless a line feed comes next. -/
def Tells (clear : Bool) (before : List Char) (items : List Item) : Prop :=
  clear = onlyBlanks before ∨ ∀ i ∈ items.head?, i = .newline

theorem Tells.behind {clear : Bool} {i : Item} {items : List Item} (h : Tells clear before (i :: items))
    (hfits : i.Fits (itemsText items)) : Tells (i.piece.clears clear) (before ++ i.text) items := by
  have htold (hi : i ≠ .newline) : clear = onlyBlanks before := h.resolve_right fun hnewline => hi (hnewline i rfl)
  cases i with
  | newline => exact .inl (by simp [Item.piece, Piece.clears, onlyBlanks, Item.text, openLine_snoc])
  | blank c hc =>
    have hfeed : c ≠ '\n' := by rcases hc with rfl | rfl | rfl <;> decide
    exact .inl (by simp [Item.piece, Piece.clears, htold nofun, onlyBlanks, Item.text, openLine_snoc, hfeed, hc])
  | lineComment body _ =>
    -- Behind a line comment the line still counts as clear, but it is at its end.
    refine .inr fun j hj => eq_newline_of_head? ?_
    obtain ⟨more, rfl⟩ := List.head?_eq_some_iff.mp hj
    have htext : itemsText (j :: more) = j.text ++ itemsText more := List.flatMap_cons
    obtain ⟨c, s, hc⟩ : ∃ c s, j.text = c :: s := by cases j <;> exact ⟨_, _, rfl⟩
    have hfeed : c = '\n' := by simpa using hfits c (by rw [htext, hc]; rfl)
    rw [hc, hfeed]
    rfl
  | blockComment body hbody =>
    have hlast : (Item.blockComment body hbody).text.getLast? = some '/' := by rw [Item.text, List.getLast?_append]; rfl
    exact .inl (onlyBlanks_of_getLast? before hlast (by decide)).symm
  | raw body _ => exact .inl (onlyBlanks_of_getLast? before List.getLast?_concat (by decide)).symm
  | quoted quote hquote parts =>
    refine .inl (onlyBlanks_of_getLast? before List.getLast?_concat ?_).symm
    rcases hquote with rfl | rfl <;> decide
  | other c hc =>
    refine .inl (onlyBlanks_of_getLast? before rfl fun hmem => hc ?_).symm
    simp only [List.mem_cons] at hmem ⊢
    tauto

/-! ## Embeds -/

theorem embedPatterns_add (m n : Nat) (s : List Char) :
    embedPatterns (m + n) s = (embedPatterns n s).map fun (at_, pattern) => (m + at_, pattern) := by
  fun_induction embedPatterns n s with
  | case1 => simp [embedPatterns]
  | case2 n c s hblank ih => rw [embedPatterns, if_pos hblank, Nat.add_assoc, ih]
  | case3 n c s hblank hquote hlength => rw [embedPatterns, if_neg hblank, if_pos hquote, hlength]; rfl
  | case4 n c s hblank hquote k hlength htext => rw [embedPatterns, if_neg hblank, if_pos hquote, hlength]; simp [htext]
  | case5 n c s hblank hquote k hlength pattern htext ih =>
    rw [embedPatterns, if_neg hblank, if_pos hquote, hlength]
    simp [htext, Nat.add_assoc, ih]
  | case6 n c s hblank hquote bare ih =>
    rw [embedPatterns, if_neg hblank, if_neg hquote]
    simp only [Nat.add_assoc, List.map_cons]
    rw [← ih]

/-- The embeds of a line comment that begins its line. -/
theorem embedsOfComment_eq (filename : String) (before comment : List Char) :
    embedsOfComment filename (placeBehind before) comment =
      ((embedArguments? comment).map (embedsAmong filename before)).getD [] := by
  unfold embedsOfComment embedArguments?
  cases directive.isPrefixOf? (trimEnd (· == '\r') comment) with
  | none => rfl
  | some args =>
    cases args with
    | nil => rfl
    | cons c args =>
      by_cases hc : c = ' ' ∨ c = '\t'
      · have hpatterns : embedPatterns directive.length (c :: args) = _ := embedPatterns_add directive.length 0 (c :: args)
        simp only [Option.filter_some, List.head?_cons, Option.some.injEq, hc, decide_true, if_true, Option.map_some,
          Option.getD_some]
        rw [hpatterns, List.map_map, embedsAmong]
        apply List.map_congr_left
        intro r _
        simp only [Function.comp, placeBehind, Utf8.size_append, size_directive, Nat.add_assoc, Nat.add_comm 1]
      · have hhead : ¬ ((c :: args).head? = some ' ' ∨ (c :: args).head? = some '\t') := by simpa using hc
        simp only [if_neg hc, Option.filter_some, decide_eq_true_eq, if_neg hhead]
        rfl

theorem embedsOfPiece_item (filename : String) (before : List Char) (i : Item) :
    embedsOfPiece filename (placeBehind before) (onlyBlanks before) i.piece = i.embeds filename before := by
  cases i with
  | lineComment body _ =>
    rw [Item.piece, embedsOfPiece, embedsOfComment_eq]
    rfl
  | _ => rfl

theorem embedsOfPieces_items {items : List Item} {clear : Bool} (filename : String) (before : List Char) (h : Fitting items)
    (hclear : Tells clear before items) :
    embedsOfPieces filename (placeBehind before) clear (items.map Item.piece) = embedsOfItems filename before items := by
  induction items generalizing before clear with
  | nil => rfl
  | cons i items ih =>
    obtain ⟨hfits, hrest⟩ := h
    have hfirst : embedsOfPiece filename (placeBehind before) clear i.piece = i.embeds filename before := by
      rcases hclear with rfl | hnewline
      · exact embedsOfPiece_item filename before i
      · rw [hnewline i rfl]
        rfl
    rw [List.map_cons, embedsOfPieces_cons, behind_piece, hfirst, ih _ hrest (hclear.behind hfits)]
    rfl

/-- The embeds of a text are those that its directives name, and no others. -/
theorem embedsOfSource_items {items : List Item} (filename : String) (h : Fitting items) :
    embedsOfSource filename (itemsText items) = embedsOfItems filename [] items := by
  rw [embedsOfSource, pieces_items h]
  exact embedsOfPieces_items filename [] h (.inl rfl)

/-- What looks like a directive stands in a raw literal, in a block comment and behind a literal; one is a directive. -/
def mixedItems : List Item :=
  [.raw "\n//go:embed a\n".toList (by decide), .newline, .blockComment "'\n//go:embed b\n".toList (by decide), .newline,
    .quoted '"' (by decide) [.escaped '"' (by decide), .plain '`' (by decide)], .blank ' ' (by decide),
    .lineComment "go:embed c".toList (by decide), .newline, .other '/' (by decide), .blank '\t' (by decide), .newline,
    .blank '\t' (by decide), .lineComment "go:embed é* \"b c\"\r".toList (by decide), .newline]

def mixedEmbeds : List Embed :=
  [{ pattern := "é*", position := ⟨"m/a.go", 71, 9, 13⟩ }, { pattern := "b c", position := ⟨"m/a.go", 75, 9, 17⟩ }]

theorem mixedItems_embeds : Fitting mixedItems ∧ embedsOfItems "m/a.go" [] mixedItems = mixedEmbeds ∧
    embedsOfSource "m/a.go" (itemsText mixedItems) = embedsOfItems "m/a.go" [] mixedItems := by
  have hfitting : Fitting mixedItems := by decide +kernel
  exact ⟨hfitting, by decide +kernel, embedsOfSource_items "m/a.go" hfitting⟩

end PackageIndex.Source
