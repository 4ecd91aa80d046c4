/-
  PackageIndex.Proofs.Constraint.Spelling — a constraint that was read, written and read again.

  The spelling puts no parentheses around a conjunction in a conjunction or a disjunction in
  a disjunction, so what is read of it is the flattened constraint. It puts none around a
  negation in a negation either, and two negation signs in a row are not read.

  - `Expressible.derived`: the tokens of a spelling (`signs`) have a derivation, whose value is
    the flattened constraint, unless a negation is negated in it (`DoublyNegated`).
  - `Alternatives.apart`: no derivation has two negation signs in a row.
  - `ofGoBuild_text_iff`: so what was read is read back with its tags, value and text exactly
    where it negates no negation; `negatedNegation_not_read_back` is the least that does.
-/

import Mathlib.Data.List.Chain
import PackageIndex.Proofs.Constraint.Flattening

namespace PackageIndex.Constraint

open BuildContext Fallible Grammar

variable {e : Constraint}

/-! ## The tokens of a spelling -/

def inParens (ks : List Kind) : List Kind := .opening :: ks ++ [.closing]

mutual

def signs : Constraint → List Kind
  | .tag name => [.tag name]
  | .not e => .bang :: (if e.isUnary then e.signs else inParens e.signs)
  | .and es => [Kind.andAnd].intercalate (signsOfOperands es)
  | .or es => [Kind.orOr].intercalate (signsOfAll es)

def signsOfOperands : List Constraint → List (List Kind)
  | [] => []
  | e :: es => (if e.isOr then inParens e.signs else e.signs) :: signsOfOperands es

def signsOfAll : List Constraint → List (List Kind)
  | [] => []
  | e :: es => e.signs :: signsOfAll es

end

def operandSigns (e : Constraint) : List Kind := if e.isOr then inParens e.signs else e.signs

theorem signs_and (es : List Constraint) : (Constraint.and es).signs = [Kind.andAnd].intercalate (es.map operandSigns) := by
  have h : signsOfOperands es = es.map operandSigns := by
    induction es with
    | nil => rfl
    | cons e es ih => rw [signsOfOperands, ih, List.map_cons, operandSigns]
  rw [signs, h]

theorem signs_or (es : List Constraint) : (Constraint.or es).signs = [Kind.orOr].intercalate (es.map signs) := by
  have h : signsOfAll es = es.map signs := by
    induction es with
    | nil => rfl
    | cons e es ih => rw [signsOfAll, ih, List.map_cons]
  rw [signs, h]

theorem lexes_enclosed {s : List Char} {ks : List Kind} (h : Lexes s ks) : Lexes (enclosed s) (inParens ks) := by
  have hclosing : Lexes [')'] [.closing] := .sign (k := .closing) rfl .nil
  have hend : EndsTag [')'] := by
    intro c hc
    cases hc
    decide
  have hopening : Lexes (['('] ++ (s ++ [')'])) (.opening :: (ks ++ [.closing])) :=
    .sign (k := .opening) rfl (h.append hclosing hend)
  exact hopening

theorem lexes_row {op : Kind} {sep : List Char} (hsep : Separates sep op) {f : Constraint → List Char}
    {g : Constraint → List Kind} {es : List Constraint} (h : ∀ e ∈ es, Lexes (f e) (g e)) :
    Lexes (sep.intercalate (es.map f)) ([op].intercalate (es.map g)) := by
  induction es with
  | nil => exact .nil
  | cons e es ih =>
    have he := h e List.mem_cons_self
    have hmore := ih fun e' he' => h e' (List.mem_cons_of_mem e he')
    rw [List.map_cons, List.map_cons]
    by_cases hne : es = []
    · subst hne
      simpa using he
    · rw [List.intercalate_cons_of_ne_nil (by simpa using hne), List.intercalate_cons_of_ne_nil (by simpa using hne),
        List.append_assoc, List.append_assoc]
      exact he.append (hsep.lexes hmore) (hsep.endsTag _)

theorem Expressible.lexes (h : Expressible e) : Lexes e.spell e.signs := by
  induction h with
  | tag hne hname =>
    rw [spell, String.toList_ofList]
    exact lexes_tag hne hname
  | @not e _ ih =>
    have hnegated : Lexes (if e.isUnary then e.spell else enclosed e.spell) (if e.isUnary then e.signs else inParens e.signs) := by
      split
      · exact ih
      · exact lexes_enclosed ih
    have hbang : Lexes (['!'] ++ _) (.bang :: _) := .sign (k := .bang) rfl hnegated
    rwa [spell, signs]
  | @and es _ _ ih =>
    rw [spell_and_eq, signs_and]
    refine lexes_row (separates_of_sign (k := .andAnd) rfl) fun e he => ?_
    unfold operandSpelling operandSigns
    split
    · exact lexes_enclosed (ih e he)
    · exact ih e he
  | @or es _ _ ih =>
    rw [spell_or_eq, signs_or]
    exact lexes_row (separates_of_sign (k := .orOr) rfl) ih

/-! ## Negations in a row -/

inductive DoublyNegated : Constraint → Prop
  | here (e : Constraint) : DoublyNegated (.not (.not e))
  | not {e : Constraint} : DoublyNegated e → DoublyNegated (.not e)
  | and {e : Constraint} {es : List Constraint} : e ∈ es → DoublyNegated e → DoublyNegated (.and es)
  | or {e : Constraint} {es : List Constraint} : e ∈ es → DoublyNegated e → DoublyNegated (.or es)

@[simp] theorem not_doublyNegated_tag (name : String) : ¬ DoublyNegated (.tag name) := nofun

@[simp] theorem doublyNegated_not : DoublyNegated (.not e) ↔ (∃ e', e = .not e') ∨ DoublyNegated e := by
  constructor
  · intro h
    cases h with
    | here e' => exact Or.inl ⟨e', rfl⟩
    | not h => exact Or.inr h
  · rintro (⟨e', rfl⟩ | h)
    · exact .here e'
    · exact .not h

@[simp] theorem doublyNegated_and {es : List Constraint} : DoublyNegated (.and es) ↔ ∃ e ∈ es, DoublyNegated e := by
  constructor
  · intro h
    cases h with
    | and he h => exact ⟨_, he, h⟩
  · rintro ⟨e, he, h⟩
    exact .and he h

@[simp] theorem doublyNegated_or {es : List Constraint} : DoublyNegated (.or es) ↔ ∃ e ∈ es, DoublyNegated e := by
  constructor
  · intro h
    cases h with
    | or he h => exact ⟨_, he, h⟩
  · rintro ⟨e, he, h⟩
    exact .or he h

theorem isInfix_inParens (ks : List Kind) : ks <:+: inParens ks := ⟨[.opening], [.closing], rfl⟩

theorem DoublyNegated.bangs (h : DoublyNegated e) : [.bang, .bang] <:+: e.signs := by
  induction h with
  | here e => exact ⟨[], _, rfl⟩
  | @not e _ ih =>
    have hinner : e.signs <:+: (if e.isUnary then e.signs else inParens e.signs) := by
      split
      · exact List.infix_refl _
      · exact isInfix_inParens _
    rw [signs]
    exact (ih.trans hinner).trans (List.suffix_cons _ _).isInfix
  | @and e es he _ ih =>
    have hinner : e.signs <:+: operandSigns e := by
      unfold operandSigns
      split
      · exact isInfix_inParens _
      · exact List.infix_refl _
    rw [signs_and]
    exact (ih.trans hinner).trans (isInfix_intercalate (List.mem_map_of_mem he))
  | @or e es he _ ih =>
    rw [signs_or]
    exact ih.trans (isInfix_intercalate (List.mem_map_of_mem he))

/-- Not both are negation signs. -/
def Apart (k l : Kind) : Prop := k ≠ .bang ∨ l ≠ .bang

mutual

theorem Alternatives.apart : ∀ a : Alternatives, a.kinds.IsChain Apart
  | .one a => All.apart a
  | .more a rest => by
    have ha := All.apart a
    have hrest := Alternatives.apart rest
    simp [Alternatives.kinds, List.isChain_append, List.isChain_cons, ha, hrest, Apart]

theorem All.apart : ∀ a : All, a.kinds.IsChain Apart
  | .one n => Negation.apart n
  | .more n rest => by
    have hn := Negation.apart n
    have hrest := All.apart rest
    simp [All.kinds, List.isChain_append, List.isChain_cons, hn, hrest, Apart]

theorem Negation.apart : ∀ n : Negation, n.kinds.IsChain Apart
  | .plain p => Primary.apart p
  | .negated p => by
    have hp := Primary.apart p
    obtain ⟨k, ks, hk, hne⟩ := Primary.kinds_head p
    rw [hk] at hp
    simp [Negation.kinds, hk, List.isChain_cons, hp, Apart, hne]

theorem Primary.apart : ∀ p : Primary, p.kinds.IsChain Apart
  | .tag name => List.isChain_singleton _
  | .enclosed a => by
    have ha := Alternatives.apart a
    simp [Primary.kinds, List.isChain_append, List.isChain_cons, ha, Apart]

end

/-! ## Derivations of spellings -/

section

variable {op : Kind} {R : List Kind → Constraint → Prop}

theorem Chain.append {ks ls : List Kind} {es fs : List Constraint} (h : Chain op R ks es) (h' : Chain op R ls fs) :
    Chain op R (ks ++ op :: ls) (es ++ fs) := by
  induction h with
  | one hR => exact .more hR h'
  | more hR _ ih =>
    rw [List.append_assoc, List.cons_append, List.cons_append]
    exact .more hR ih

theorem chain_of_row {f : Constraint → List Kind} {g : Constraint → List Constraint} {es : List Constraint} (hne : es ≠ [])
    (h : ∀ e ∈ es, Chain op R (f e) (g e)) : Chain op R ([op].intercalate (es.map f)) (es.flatMap g) := by
  induction es with
  | nil => exact absurd rfl hne
  | cons e es ih =>
    have he := h e List.mem_cons_self
    rw [List.map_cons, List.flatMap_cons]
    by_cases hes : es = []
    · subst hes
      simpa using he
    · have hmore := ih hes fun e' he' => h e' (List.mem_cons_of_mem e he')
      rw [List.intercalate_cons_of_ne_nil (by simpa using hes), List.append_assoc]
      exact he.append hmore

end

/-- How the tokens of a spelling are derived, at each level of the grammar that they can stand at. -/
structure Derived (e : Constraint) : Prop where
  negation : e.isUnary = true → Derives Negation.kinds Negation.value e.signs e.flat
  conjuncts : e.isOr = false → Chain .andAnd (Derives Negation.kinds Negation.value) e.signs e.flat.conjuncts
  disjuncts : Chain .orOr (Derives All.kinds All.value) e.signs e.flat.disjuncts

/-- Several operands are no lone one. -/
theorem joined_of_length {join : List Constraint → Constraint} {es : List Constraint} (h : 2 ≤ es.length) :
    joined join es = join es := by
  match es, h with
  | e :: e' :: es, _ => rfl

theorem Expressible.joined_conjuncts (h : Expressible e) : joined .and e.conjuncts = e := by
  cases h with
  | and hlength _ => exact joined_of_length hlength
  | _ => rfl

theorem Expressible.joined_disjuncts (h : Expressible e) : joined .or e.disjuncts = e := by
  cases h with
  | or hlength _ => exact joined_of_length hlength
  | _ => rfl

theorem Derived.alternatives (hd : Derived e) (h : Expressible e) :
    Derives Alternatives.kinds Alternatives.value e.signs e.flat := by
  rw [derives_alternatives]
  exact ⟨_, hd.disjuncts, h.flat.joined_disjuncts⟩

theorem derives_inParens {ks : List Kind} (h : Derives Alternatives.kinds Alternatives.value ks e) :
    Derives Primary.kinds Primary.value (inParens ks) e := by
  obtain ⟨a, rfl, rfl⟩ := h
  exact ⟨.enclosed a, rfl, rfl⟩

theorem derives_plain {ks : List Kind} (h : Derives Primary.kinds Primary.value ks e) :
    Derives Negation.kinds Negation.value ks e := by
  obtain ⟨p, rfl, rfl⟩ := h
  exact ⟨.plain p, rfl, rfl⟩

/-- What a level below derives stands alone in a chain of the next. -/
theorem derived_of_conjuncts (h : Expressible e) (hor : e.isOr = false)
    (hnegation : e.isUnary = true → Derives Negation.kinds Negation.value e.signs e.flat)
    (hchain : Chain .andAnd (Derives Negation.kinds Negation.value) e.signs e.flat.conjuncts) : Derived e := by
  have hone : e.flat.disjuncts = [e.flat] := by
    cases e with
    | or es => cases hor
    | _ => rfl
  refine ⟨hnegation, fun _ => hchain, ?_⟩
  rw [hone, derives_all]
  exact .one ⟨_, hchain, h.flat.joined_conjuncts⟩

theorem derived_of_negation (h : Expressible e) (hunary : e.isUnary = true)
    (hnegation : Derives Negation.kinds Negation.value e.signs e.flat) : Derived e := by
  have hone : e.flat.conjuncts = [e.flat] := by
    cases e with
    | tag _ | not _ => rfl
    | _ => cases hunary
  have hor : e.isOr = false := by
    cases e with
    | or es => cases hunary
    | _ => rfl
  exact derived_of_conjuncts h hor (fun _ => hnegation) (hone ▸ .one hnegation)

theorem Expressible.derived (h : Expressible e) (hbangs : ¬ DoublyNegated e) : Derived e := by
  induction h with
  | @tag name hne hname =>
    exact derived_of_negation (.tag hne hname) rfl ⟨.plain (.tag (String.ofList name)), rfl, rfl⟩
  | @not e he ih =>
    have hd := ih fun hbang => hbangs (.not hbang)
    have hprimary : Derives Primary.kinds Primary.value (if e.isUnary then e.signs else inParens e.signs) e.flat := by
      cases e with
      | tag name => exact ⟨.tag name, rfl, rfl⟩
      | not e => exact absurd (.here e) hbangs
      | _ => exact derives_inParens (hd.alternatives he)
    obtain ⟨p, hkinds, hvalue⟩ := hprimary
    exact derived_of_negation (.not he) rfl ⟨.negated p, by rw [signs, ← hkinds]; rfl, by rw [flat_not, ← hvalue]; rfl⟩
  | @and es hlength hes ih =>
    refine derived_of_conjuncts (.and hlength hes) rfl (fun h => nomatch h) ?_
    rw [signs_and, flat_and]
    refine chain_of_row (List.ne_nil_of_length_pos (by omega)) fun e he => ?_
    have hd := ih e he fun hbang => hbangs (.and he hbang)
    unfold operandSigns
    split
    · rename_i hor
      have hone : e.flat.conjuncts = [e.flat] := by
        cases e with
        | or es => rfl
        | _ => cases hor
      rw [hone]
      exact .one (derives_plain (derives_inParens (hd.alternatives (hes e he))))
    · rename_i hor
      exact hd.conjuncts (by simpa using hor)
  | @or es hlength hes ih =>
    refine ⟨fun h => (nomatch h), fun h => (nomatch h), ?_⟩
    rw [signs_or, flat_or]
    refine chain_of_row (List.ne_nil_of_length_pos (by omega)) fun e he => ?_
    exact (ih e he fun hbang => hbangs (.or he hbang)).disjuncts

/-! ## Reading a spelling -/

theorem not_bangs_of_kinds (a : Alternatives) : ¬ [.bang, .bang] <:+: a.kinds := by
  rintro ⟨before, after, h⟩
  have hchain := Alternatives.apart a
  rw [← h] at hchain
  simp [List.isChain_append, Apart] at hchain

/-- What was read is spelt as it can be read again, with the same tags, the same value under all
answers about them and the same spelling, exactly where it negates no negation. -/
theorem ofGoBuild_text_iff {s : List Char} (h : ofGoBuild s = .ok e) :
    (∃ e', ofGoBuild e.text.toList = .ok e' ∧ e'.tags = e.tags ∧ (∀ p, holds p e' = holds p e) ∧ e'.text = e.text) ↔
      ¬ DoublyNegated e := by
  have he := expressible_of_ofGoBuild h
  have hlexes := he.lexes
  rw [text, String.toList_ofList]
  constructor
  · rintro ⟨e', hread, -⟩ hdouble
    have hbangs := hdouble.bangs
    obtain ⟨ks, hks, a, rfl, -⟩ := ofGoBuild_eq_ok.mp hread
    rw [← hks.unique hlexes] at hbangs
    exact not_bangs_of_kinds a hbangs
  · intro hbangs
    have hread := ofGoBuild_eq_ok.mpr ⟨_, hlexes, (he.derived hbangs).alternatives he⟩
    exact ⟨e.flat, hread, he.tags_flat, he.holds_flat, by rw [text, he.spell_flat]⟩

def sampleNested : List Char := "!(a&&(b&&!c))||(d||(e||é_1)&&f)".toList

def sampleNestedConstraint : Constraint :=
  .or [.not (.and [.tag "a", .and [.tag "b", .not (.tag "c")]]),
    .or [.tag "d", .and [.or [.tag "e", .tag "é_1"], .tag "f"]]]

theorem sampleNested_read_back : ofGoBuild sampleNested = .ok sampleNestedConstraint ∧
    sampleNestedConstraint.text = "!(a && b && !c) || d || (e || é_1) && f" ∧
    ∃ e', ofGoBuild sampleNestedConstraint.text.toList = .ok e' ∧ e'.tags = sampleNestedConstraint.tags ∧
      (∀ p, holds p e' = holds p sampleNestedConstraint) ∧ e'.text = sampleNestedConstraint.text := by
  have h : ofGoBuild sampleNested = .ok sampleNestedConstraint := by with_unfolding_all rfl
  have hbangs : ¬ DoublyNegated sampleNestedConstraint := by simp [sampleNestedConstraint]
  exact ⟨h, by decide, (ofGoBuild_text_iff h).mpr hbangs⟩

/-- In parentheses the negation of a negation is read, but they are left out where it is written. -/
theorem negatedNegation_not_read_back : ofGoBuild "!(!a)".toList = .ok (.not (.not (.tag "a"))) ∧
    (Constraint.not (.not (.tag "a"))).text = "!!a" ∧ ofGoBuild "!!a".toList = .error .doubleNegation := by
  exact ⟨by with_unfolding_all rfl, by decide, by with_unfolding_all rfl⟩

end PackageIndex.Constraint
