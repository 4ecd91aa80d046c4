/-
  PackageIndex.Proofs.Source.Lexing — texts that are put together of lexemes are read as these.

  What stands in front of a text is its first lexeme, if the text after it does not go on
  with it. Readings are followed from one `Reader` to the next; what they hold of the
  comments since the last token is told by `Reader.Holds`.

  - `tokens_commentLines`: lines of comment above a token are all held for it.
  - `docAbove_of_holds`: a token is documented by the comments that are held, and by no others.
-/

import PackageIndex.Proofs.Text.Parts
import PackageIndex.Source.Token

namespace PackageIndex.Source

/-! ## Lexemes -/

def Stops (p : Char → Bool) (s : List Char) : Prop := ∀ c ∈ s.head?, p c = false

theorem stops_cons {p : Char → Bool} {c : Char} (h : p c = false) (s : List Char) : Stops p (c :: s) := by
  intro d hd
  rwa [← Option.some.inj hd]

instance (p : Char → Bool) : (s : List Char) → Decidable (Stops p s)
  | [] => isTrue nofun
  | c :: s => decidable_of_iff (p c = false) ⟨fun h => stops_cons h s, fun h => h c rfl⟩

def isIdentifier : List Char → Bool
  | [] => false
  | c :: s => isNameStart c && s.all isNamePart

variable {s l name path : List Char} {c : Char}

theorem newline_not_mem_identifier (h : isIdentifier name = true) : '\n' ∉ name := by
  cases name with
  | nil => cases h
  | cons c name =>
    obtain ⟨hc, hname⟩ := Bool.and_eq_true_iff.mp h
    have hpart : isNameStart '\n' = false ∧ isNamePart '\n' = false := by decide
    intro hmem
    rcases List.mem_cons.mp hmem with hmem | hmem
    · rw [← hmem, hpart.1] at hc
      cases hc
    · have := List.all_eq_true.mp hname _ hmem
      rw [hpart.2] at this
      cases this

theorem lexemes_newline (s : List Char) : lexemes ('\n' :: s) = .newline :: lexemes s := by
  rw [lexemes]

theorem lexemes_blank (hc : c = ' ' ∨ c = '\t') (s : List Char) : lexemes (c :: s) = .space c :: lexemes s := by
  rcases hc with rfl | rfl <;> simp [lexemes]

theorem lexemes_mark (hc : c = '(' ∨ c = ')' ∨ c = '.') (s : List Char) : lexemes (c :: s) = .other c :: lexemes s := by
  have hstart : isNameStart '(' = false ∧ isNameStart ')' = false ∧ isNameStart '.' = false := by decide
  rcases hc with rfl | rfl | rfl <;> simp [lexemes, hstart]

/-- A text without a line feed is the line it begins. -/
theorem takeWhile_line (hl : '\n' ∉ l) (hs : Stops (· ≠ '\n') s) :
    (l ++ s).takeWhile (· ≠ '\n') = l ∧ (l ++ s).dropWhile (· ≠ '\n') = s :=
  span_ne_append hl (fun c hc => by simpa using hs c hc)

theorem lexemes_lineComment (hl : '\n' ∉ l) (hs : Stops (· ≠ '\n') s) :
    lexemes ('/' :: '/' :: l ++ s) = .lineComment ('/' :: '/' :: l) :: lexemes s := by
  obtain ⟨htake, hdrop⟩ := takeWhile_line hl hs
  rw [List.cons_append, List.cons_append, lexemes, htake, hdrop]

theorem lexemes_blockComment (hl : '*' ∉ l) (s : List Char) :
    lexemes ('/' :: '*' :: l ++ '*' :: '/' :: s) = .blockComment ('/' :: '*' :: l ++ ['*', '/']) :: lexemes s := by
  have hfound : cutAt? ['*', '/'] (l ++ '*' :: '/' :: s) = some (l, s) := cutAt?_append hl ['/'] s
  rw [List.cons_append, List.cons_append, lexemes]
  split
  · rename_i hcut
    cases hfound.symm.trans hcut
  · rename_i hcut
    cases hfound.symm.trans hcut
    rfl

theorem lexemes_identifier (hname : isIdentifier name = true) (hs : Stops isNamePart s) :
    lexemes (name ++ s) = .identifier name :: lexemes s := by
  cases name with
  | nil => cases hname
  | cons c name =>
    obtain ⟨hc, hname⟩ := Bool.and_eq_true_iff.mp hname
    obtain ⟨htake, hdrop⟩ := span_append (List.all_eq_true.mp hname) hs
    have hne {d : Char} (hd : isNameStart d = false) : c ≠ d := by
      rintro rfl
      rw [hc] at hd
      cases hd
    have hspace : c ≠ ' ' ∧ c ≠ '\t' ∧ c ≠ '\r' := ⟨hne (by decide), hne (by decide), hne (by decide)⟩
    have hslash : c ≠ '/' := hne (by decide)
    rw [List.cons_append, lexemes]
    · simp [hspace, hc, htake, hdrop]
    · exact hne (by decide)
    · exact fun _ h _ => hslash h
    · exact fun _ h _ => hslash h
    · exact hne (by decide)
    · exact hne (by decide)

def IsPlainLiteral (path : List Char) : Prop := ∀ c ∈ path, c ≠ '"' ∧ c ≠ '\\' ∧ c ≠ '\n'

theorem interpretedLength?_plain_append (hpath : IsPlainLiteral path) (s : List Char) :
    interpretedLength? (path ++ s) = (interpretedLength? s).map (· + path.length) := by
  induction path with
  | nil => simp
  | cons c path ih =>
    obtain ⟨⟨hquote, hslash, hfeed⟩, hpath⟩ := List.forall_mem_cons.mp hpath
    rw [List.cons_append, interpretedLength?]
    · simp [hquote, hfeed, ih hpath, Function.comp_def, Nat.add_assoc]
    · exact fun h => absurd h hslash
    · exact fun _ _ h => absurd h hslash

/-! ## Readers -/

def commentLines (blanks : List Char) (lines : List (List Char)) : List Char :=
  lines.flatMap fun l => blanks ++ '/' :: '/' :: ' ' :: l ++ ['\n']

/-- How far a source has been read: to a place, on which line the last token stands, and the comments since. -/
structure Reader where
  place : Place
  tokenLine : Nat
  group : Option Group

namespace Reader

def tokens (r : Reader) (s : List Char) : Tokens := .ofLexemesFrom r.place r.tokenLine r.group (lexemes s)

/-- The reader holds these comments for a token on its line, if it holds any; comments that belong to the last
token it does not hold. -/
def Holds (r : Reader) : List (List Char) → Prop
  | [] => ∀ g ∈ r.group, g.trails = true
  | comments => ∃ last, r.group = some ⟨comments, last, false⟩ ∧ last + 1 = r.place.line

variable {r : Reader} {comments : List (List Char)}

/-- A token is documented by the comments that are held for it. -/
theorem docAbove_of_holds (h : r.Holds comments) : docAbove r.group r.place.line = String.ofList (groupText comments) := by
  cases comments with
  | nil =>
    cases hg : r.group with
    | none => rfl
    | some g =>
      have htrails : g.trails = true := h g hg
      simp [docAbove, htrails]
      rfl
  | cons c comments =>
    obtain ⟨last, hg, hline⟩ := h
    simp [docAbove, hg, hline]

theorem Holds.of_eq {r' : Reader} (h : r.Holds comments) (hgroup : r'.group = r.group)
    (hline : r'.place.line = r.place.line) : r'.Holds comments := by
  cases comments with
  | nil =>
    intro g hg
    exact h g (hgroup ▸ hg)
  | cons c comments =>
    obtain ⟨last, hg, hlast⟩ := h
    exact ⟨last, by rw [hgroup, hg], by rw [hline, hlast]⟩

theorem line_after (p : Place) (s : List Char) : (p.after s).line = p.line + s.count '\n' := by
  induction s generalizing p with
  | nil => rfl
  | cons c s ih =>
    show ((p.next c).after s).line = _
    rw [ih, List.count_cons]
    by_cases hc : c = '\n'
    · simp only [Place.next, hc, if_true, beq_self_eq_true]
      omega
    · simp [Place.next, Place.pass, hc]

theorem line_after_of_not_mem {s : List Char} (hs : '\n' ∉ s) (p : Place) : (p.after s).line = p.line := by
  rw [line_after, List.count_eq_zero.mpr hs, Nat.add_zero]

/-! ### White space -/

def skip (r : Reader) (s : List Char) : Reader := { r with place := r.place.after s }

theorem tokens_newline (s : List Char) : r.tokens ('\n' :: s) = (r.skip ['\n']).tokens s := by
  rw [tokens, lexemes_newline]
  rfl

theorem tokens_blanks {blanks : List Char} (hblanks : ∀ c ∈ blanks, c = ' ' ∨ c = '\t') (s : List Char) :
    r.tokens (blanks ++ s) = (r.skip blanks).tokens s := by
  induction blanks generalizing r with
  | nil => rfl
  | cons c blanks ih =>
    obtain ⟨hc, hblanks⟩ := List.forall_mem_cons.mp hblanks
    rw [List.cons_append, tokens, lexemes_blank hc]
    exact ih (r := r.skip [c]) hblanks

theorem tokens_blank (s : List Char) : r.tokens (' ' :: s) = (r.skip [' ']).tokens s := by
  rw [tokens, lexemes_blank (Or.inl rfl)]
  rfl

theorem newline_not_mem_blanks {blanks : List Char} (hblanks : ∀ c ∈ blanks, c = ' ' ∨ c = '\t') : '\n' ∉ blanks := by
  intro hmem
  rcases hblanks _ hmem with h | h <;> cases h

/-- Below a line feed there is no token on the line yet. -/
theorem below_newline (h : r.tokenLine ≤ r.place.line) : (r.skip ['\n']).tokenLine < (r.skip ['\n']).place.line := by
  simp only [skip, line_after]
  simp
  omega

/-! ### Comments -/

def comment (r : Reader) (s : List Char) : Reader where
  place := r.place.after s
  tokenLine := r.tokenLine
  group := addComment r.group s r.tokenLine r.place.line (r.place.after s).line

theorem tokens_lineComment {l s : List Char} (hl : '\n' ∉ l) (hs : Stops (· ≠ '\n') s) :
    r.tokens ('/' :: '/' :: l ++ s) = (r.comment ('/' :: '/' :: l)).tokens s := by
  rw [tokens, lexemes_lineComment hl hs]
  rfl

theorem tokens_blockComment {l : List Char} (hl : '*' ∉ l) (s : List Char) :
    r.tokens ('/' :: '*' :: l ++ '*' :: '/' :: s) = (r.comment ('/' :: '*' :: l ++ ['*', '/'])).tokens s := by
  rw [tokens, lexemes_blockComment hl]
  rfl

/-- A comment on the line of the last token belongs to that token. -/
theorem holds_comment_nil {s : List Char} (h : r.Holds []) (hline : r.tokenLine = r.place.line) : (r.comment s).Holds [] := by
  intro g hg
  cases hgroup : r.group with
  | none =>
    simp only [comment, addComment, hgroup, hline, beq_self_eq_true] at hg
    cases hg
    rfl
  | some g' =>
    have htrails : g'.trails = true := h g' hgroup
    simp only [comment, addComment, hgroup, htrails, hline, beq_self_eq_true] at hg
    cases hg
    rfl

/-- A comment on a line below joins the comments that are held. -/
theorem holds_comment {s : List Char} (h : r.Holds comments) (hline : r.tokenLine < r.place.line) (hs : '\n' ∉ s) :
    ((r.comment s).skip ['\n']).Holds (comments ++ [s]) := by
  have hbelow : (r.place.line == r.tokenLine) = false := by simpa using Nat.ne_of_gt hline
  have hgroup : (r.comment s).group = some ⟨comments ++ [s], r.place.line, false⟩ := by
    cases comments with
    | nil =>
      cases hg : r.group with
      | none => simp [comment, addComment, hg, hbelow, line_after_of_not_mem hs]
      | some g =>
        have htrails : g.trails = true := h g hg
        simp [comment, addComment, hg, htrails, hbelow, line_after_of_not_mem hs]
    | cons c comments =>
      obtain ⟨last, hg, hlast⟩ := h
      simp [comment, addComment, hg, hlast, line_after_of_not_mem hs]
  have hlast : r.place.line + 1 = ((r.comment s).skip ['\n']).place.line := by
    simp [skip, comment, line_after, List.count_eq_zero.mpr hs]
  cases hcons : comments ++ [s] with
  | nil => simp at hcons
  | cons c cs =>
    rw [hcons] at hgroup
    exact ⟨r.place.line, hgroup, hlast⟩

theorem tokens_commentLines {blanks : List Char} {lines : List (List Char)} (h : r.Holds comments)
    (hline : r.tokenLine < r.place.line) (hblanks : ∀ c ∈ blanks, c = ' ' ∨ c = '\t') (hlines : ∀ l ∈ lines, '\n' ∉ l) :
    ∃ r' : Reader, (∀ s, r.tokens (commentLines blanks lines ++ s) = r'.tokens s) ∧
      r'.Holds (comments ++ lines.map (['/', '/', ' '] ++ ·)) ∧ r'.tokenLine < r'.place.line := by
  induction lines generalizing r comments with
  | nil => exact ⟨r, fun _ => rfl, by simpa using h, hline⟩
  | cons l lines ih =>
    obtain ⟨hl, hlines⟩ := List.forall_mem_cons.mp hlines
    have hcomment : '\n' ∉ ['/', '/', ' '] ++ l := by simpa using hl
    have hplace : (r.skip blanks).place.line = r.place.line := line_after_of_not_mem (newline_not_mem_blanks hblanks) _
    have hone := holds_comment (r := r.skip blanks) (h.of_eq rfl hplace) (by rw [hplace]; exact hline) hcomment
    obtain ⟨r', htokens, hholds, hbelow⟩ := ih hone (by
      simp only [skip, comment, line_after]
      simp
      omega) hlines
    refine ⟨r', fun s => ?_, ?_, hbelow⟩
    · have hsplit : commentLines blanks (l :: lines) ++ s =
          blanks ++ ('/' :: '/' :: ' ' :: l ++ '\n' :: (commentLines blanks lines ++ s)) := by
        simp [commentLines]
      rw [hsplit, tokens_blanks hblanks, tokens_lineComment (l := ' ' :: l) (by simpa using hl) (stops_cons (by simp) _),
        tokens_newline]
      exact htokens s
    · simpa using hholds

/-! ### Tokens -/

def past (r : Reader) (p : Place) : Reader := ⟨p, r.place.line, none⟩

theorem holds_past (p : Place) : (r.past p).Holds [] := nofun

theorem tokens_identifier {name s : List Char} (hname : isIdentifier name = true) (hs : Stops isNamePart s) :
    r.tokens (name ++ s) =
      .token ⟨.identifier, name, r.place, docAbove r.group r.place.line⟩ ((r.past (r.place.after name)).tokens s) := by
  rw [tokens, lexemes_identifier hname hs]
  rfl

theorem tokens_mark {c : Char} (hc : c = '(' ∨ c = ')' ∨ c = '.') (s : List Char) :
    r.tokens (c :: s) =
      .token ⟨.other, [c], r.place, docAbove r.group r.place.line⟩ ((r.past (r.place.next c)).tokens s) := by
  rw [tokens, lexemes_mark hc]
  rfl

end Reader

end PackageIndex.Source
