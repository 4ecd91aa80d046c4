/-
  PackageIndex.Proofs.Constraint.Terms — a `+build` line says the same as a `//go:build` line.

  The constraint of a `+build` line is an alternative of conjunctions of tags and negated
  tags. Its spelling needs no parentheses, and each of its levels is spelt by operands with
  the level's sign between them, which is what the grammar derives.

  - `lexes_joined`: operands that can be read back are read back as a chain.
  - `ofGoBuild_of_ofPlusBuild`: the text of a `+build` constraint reads back as this constraint.
-/

import PackageIndex.Proofs.Constraint.Parsing

namespace PackageIndex.Constraint

open Fallible Grammar

/-! ## Chains of spellings -/

def inRow (sep : List Char) (es : List Constraint) : List Char := ((es.map spell).intersperse sep).flatten

theorem inRow_one (sep : List Char) (e : Constraint) : inRow sep [e] = e.spell := by simp [inRow]

theorem inRow_cons (sep : List Char) (e : Constraint) {es : List Constraint} (h : es ≠ []) :
    inRow sep (e :: es) = e.spell ++ (sep ++ inRow sep es) := by
  cases es with
  | nil => exact absurd rfl h
  | cons e' es => simp [inRow]

/-- A sign between blanks is the token `op`, and no tag can go on into it. -/
structure Separates (sep : List Char) (op : Kind) : Prop where
  lexes : ∀ {s ks}, Lexes s ks → Lexes (sep ++ s) (op :: ks)
  endsTag : ∀ s, EndsTag (sep ++ s)

theorem separates_of_sign {k : Kind} {sign : List Char} (h : k.sign? = some sign) :
    Separates (' ' :: sign ++ [' ']) k := by
  constructor
  · intro s ks hs
    have hblank : Lexes (' ' :: s) ks := .blank (by decide) hs
    have hsign : Lexes (sign ++ ' ' :: s) (k :: ks) := .sign h hblank
    have hall : Lexes (' ' :: (sign ++ ' ' :: s)) (k :: ks) := .blank (by decide) hsign
    simpa using hall
  · intro s c hc
    cases hc
    decide

variable {R : List Kind → Constraint → Prop} {op : Kind} {sep : List Char}

/-- The spelling of operands in a row is read as a chain, if each of them is read as it is spelt. -/
theorem chain_of_inRow (hsep : Separates sep op) {es : List Constraint} (hne : es ≠ [])
    (h : ∀ e ∈ es, ∃ ks, Lexes e.spell ks ∧ R ks e) : ∃ ks, Lexes (inRow sep es) ks ∧ Chain op R ks es := by
  induction es with
  | nil => exact absurd rfl hne
  | cons e es ih =>
    obtain ⟨ks, hlex, hR⟩ := h e List.mem_cons_self
    by_cases hes : es = []
    · subst hes
      rw [inRow_one]
      exact ⟨ks, hlex, .one hR⟩
    · obtain ⟨ls, hrest, hchain⟩ := ih hes fun e he => h e (List.mem_cons_of_mem _ he)
      rw [inRow_cons sep e hes]
      exact ⟨ks ++ op :: ls, hlex.append (hsep.lexes hrest) (hsep.endsTag _), .more hR hchain⟩

/-- Operands that are read back are read back when they are joined, where the spelling of what they
are joined to puts the sign between them. -/
theorem lexes_joined {join : List Constraint → Constraint} (hsep : Separates sep op) {es : List Constraint} (hne : es ≠ [])
    (h : ∀ e ∈ es, ∃ ks, Lexes e.spell ks ∧ R ks e) (hspell : (join es).spell = inRow sep es) :
    ∃ ks, Lexes (joined join es).spell ks ∧ Joined op join R ks (joined join es) := by
  obtain ⟨ks, hlex, hchain⟩ := chain_of_inRow hsep hne h
  have heq : (joined join es).spell = inRow sep es := by
    cases es with
    | nil => exact absurd rfl hne
    | cons e es =>
      cases es with
      | nil => exact (inRow_one sep e).symm
      | cons e' es => exact hspell
  rw [heq]
  exact ⟨ks, hlex, es, hchain, rfl⟩

/-! ## Spelling -/

theorem spellAll_eq (es : List Constraint) : spellAll es = es.map spell := by
  induction es with
  | nil => rfl
  | cons e es ih => simp [spellAll, ih]

theorem spellOperands_eq {es : List Constraint} (h : ∀ e ∈ es, e.isOr = false) : spellOperands es = es.map spell := by
  induction es with
  | nil => rfl
  | cons e es ih =>
    have he := h e List.mem_cons_self
    have hes := ih fun e he => h e (List.mem_cons_of_mem _ he)
    simp [spellOperands, he, hes]

theorem spell_or (es : List Constraint) : (Constraint.or es).spell = inRow " || ".toList es := by
  simp [spell, spellAll_eq, inRow]

theorem spell_and {es : List Constraint} (h : ∀ e ∈ es, e.isOr = false) :
    (Constraint.and es).spell = inRow " && ".toList es := by
  simp [spell, spellOperands_eq h, inRow]

/-! ## Terms, clauses, lines -/

theorem lexes_tag {name : List Char} (hne : name ≠ []) (h : ∀ c ∈ name, isTagLetter c = true) :
    Lexes name [.tag (String.ofList name)] := by
  have hlex : Lexes (name ++ []) [.tag (String.ofList name)] := .tag hne h (by simp [EndsTag]) .nil
  rwa [List.append_nil] at hlex

def IsTerm (e : Constraint) : Prop :=
  ∃ name : List Char, name ≠ [] ∧ (∀ c ∈ name, isTagLetter c = true) ∧
    (e = .tag (String.ofList name) ∨ e = .not (.tag (String.ofList name)))

theorem isTerm_of_ofTerm {term : List Char} {e : Constraint} (h : ofTerm term = .ok e) : IsTerm e := by
  unfold ofTerm at h
  split at h
  rename_i negated name _
  split at h
  · cases h
  · split at h
    · cases h
    · rename_i hname
      cases h
      simp only [not_or, Decidable.not_not, List.all_eq_true] at hname
      refine ⟨name, hname.1, hname.2, ?_⟩
      cases negated
      · exact Or.inl rfl
      · exact Or.inr rfl

theorem lexes_of_isTerm {e : Constraint} (h : IsTerm e) :
    ∃ ks, Lexes e.spell ks ∧ Derives Negation.kinds Negation.value ks e := by
  obtain ⟨name, hne, hname, rfl | rfl⟩ := h
  · refine ⟨_, ?_, .plain (.tag (String.ofList name)), rfl, rfl⟩
    simpa [spell, Negation.kinds, Primary.kinds] using lexes_tag hne hname
  · refine ⟨_, ?_, .negated (.tag (String.ofList name)), rfl, rfl⟩
    have hlex := Lexes.sign (k := .bang) rfl (lexes_tag hne hname)
    simpa [spell, isUnary, Negation.kinds, Primary.kinds] using hlex

theorem isOr_of_isTerm {e : Constraint} (h : IsTerm e) : e.isOr = false := by
  obtain ⟨name, -, -, rfl | rfl⟩ := h <;> rfl

theorem mem_of_mapM_ok {α β ε : Type} {f : α → Except ε β} {l : List α} {bs : List β} (h : l.mapM f = .ok bs) :
    ∀ b ∈ bs, ∃ a ∈ l, f a = .ok b := by
  intro b hb
  exact exists_of_forall₂ (mapM_eq_ok.mp h) hb

theorem lexes_of_ofClause {clause : List Char} {e : Constraint} (h : ofClause clause = .ok e) :
    ∃ ks, Lexes e.spell ks ∧ Derives All.kinds All.value ks e := by
  obtain ⟨es, hes, he⟩ := bind_eq_ok.mp h
  cases he
  have hterms : ∀ e ∈ es, IsTerm e := by
    intro e he
    obtain ⟨term, -, hterm⟩ := mem_of_mapM_ok hes e he
    exact isTerm_of_ofTerm hterm
  have hne : es ≠ [] := by
    rintro rfl
    have hlength := (mapM_eq_ok.mp hes).length_eq
    rw [List.length_nil, List.length_eq_zero_iff] at hlength
    exact List.splitOnP_ne_nil _ _ hlength
  rw [derives_all]
  exact lexes_joined (separates_of_sign (k := .andAnd) rfl) hne (fun e he => lexes_of_isTerm (hterms e he))
    (spell_and fun e he => isOr_of_isTerm (hterms e he))

/-- The constraint of a `+build` line, written as a `//go:build` expression, is read as itself. -/
theorem ofGoBuild_of_ofPlusBuild {s : List Char} {e : Constraint} (h : ofPlusBuild s = .ok e) :
    ofGoBuild e.text.toList = .ok e := by
  have hread : ∃ ks, Lexes e.spell ks ∧ Derives Alternatives.kinds Alternatives.value ks e := by
    obtain ⟨es, hes, he⟩ := bind_eq_ok.mp h
    split at he
    · -- a line without words never holds: it is the tag "ignore"
      cases he
      have hletters : "ignore".toList.all isTagLetter = true := by decide
      exact ⟨_, lexes_tag (by decide) (List.all_eq_true.mp hletters), .one (.one (.plain (.tag "ignore"))), rfl, rfl⟩
    · rename_i hne
      cases he
      rw [derives_alternatives]
      refine lexes_joined (separates_of_sign (k := .orOr) rfl) hne ?_ (spell_or es)
      intro e he
      obtain ⟨clause, -, hclause⟩ := mem_of_mapM_ok hes e he
      exact lexes_of_ofClause hclause
  rw [text, String.toList_ofList]
  exact ofGoBuild_eq_ok.mpr hread

def sampleLine : List Char := " linux,!cgo  go1.18\t!é_x ".toList

def sampleLineConstraint : Constraint :=
  .or [.and [.tag "linux", .not (.tag "cgo")], .tag "go1.18", .not (.tag "é_x")]

theorem sampleLine_read_back : ofPlusBuild sampleLine = .ok sampleLineConstraint ∧
    sampleLineConstraint.text = "linux && !cgo || go1.18 || !é_x" ∧
    ofGoBuild sampleLineConstraint.text.toList = .ok sampleLineConstraint := by
  have hwords : words sampleLine = ["linux,!cgo".toList, "go1.18".toList, "!é_x".toList] := by decide
  have h : ofPlusBuild sampleLine = .ok sampleLineConstraint := by
    unfold ofPlusBuild
    rw [hwords]
    rfl
  exact ⟨h, by decide, ofGoBuild_of_ofPlusBuild h⟩

end PackageIndex.Constraint
