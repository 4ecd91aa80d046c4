/-
  PackageIndex.Proofs.Constraint.Flattening — a conjunction in a conjunction, a disjunction in a disjunction.

  The operands of the inner one can as well be operands of the outer one. A constraint in
  which they are (`flat`) has the same tags in the same order, the same value and the same
  spelling, which has no parentheses there.

  - `expressible_of_ofGoBuild`: what is read has tags of letters, and joins two operands or more.
  - `Expressible.tags_flat`, `holds_flat`, `spell_flat`: what flattening keeps.
-/

import PackageIndex.Proofs.Constraint.Evaluation
import PackageIndex.Proofs.Constraint.Terms

namespace PackageIndex.Constraint

open BuildContext Grammar

/-! ## Rows -/

section

variable {α β : Type} {sep : List α}

theorem intercalate_append {l m : List (List α)} (hl : l ≠ []) (hm : m ≠ []) :
    sep.intercalate (l ++ m) = sep.intercalate l ++ (sep ++ sep.intercalate m) := by
  induction l with
  | nil => exact absurd rfl hl
  | cons s l ih =>
    by_cases hne : l = []
    · subst hne
      rw [List.singleton_append, List.intercalate_cons_of_ne_nil hm, List.intercalate_singleton, List.append_assoc]
    · rw [List.cons_append, List.intercalate_cons_of_ne_nil (by simp [hne]), List.intercalate_cons_of_ne_nil hne, ih hne]
      simp

/-- Rows in a row are one row. -/
theorem intercalate_flatMap {f : β → List (List α)} {g : β → List α} {l : List β} (hne : ∀ b ∈ l, f b ≠ [])
    (h : ∀ b ∈ l, sep.intercalate (f b) = g b) : sep.intercalate (l.flatMap f) = sep.intercalate (l.map g) := by
  induction l with
  | nil => rfl
  | cons b l ih =>
    have hmore := ih (fun c hc => hne c (List.mem_cons_of_mem b hc)) fun c hc => h c (List.mem_cons_of_mem b hc)
    rw [List.flatMap_cons, List.map_cons]
    cases l with
    | nil => simp [h b List.mem_cons_self]
    | cons c l =>
      have hrest : (c :: l).flatMap f ≠ [] := by simp [hne c (by simp)]
      rw [intercalate_append (hne b List.mem_cons_self) hrest, h b List.mem_cons_self, hmore,
        List.intercalate_cons_of_ne_nil (by simp), List.append_assoc]

theorem isInfix_intercalate {s : List α} {l : List (List α)} (h : s ∈ l) : s <:+: sep.intercalate l := by
  induction l with
  | nil => cases h
  | cons t l ih =>
    by_cases hne : l = []
    · subst hne
      have hwhole : s = sep.intercalate [t] := (List.mem_singleton.mp h).trans List.intercalate_singleton.symm
      exact ⟨[], [], by rw [List.append_nil, List.nil_append]; exact hwhole⟩
    · rw [List.intercalate_cons_of_ne_nil hne]
      rcases List.mem_cons.mp h with rfl | h
      · rw [List.append_assoc]
        exact (List.prefix_append s _).isInfix
      · exact (ih h).trans (List.suffix_append _ _).isInfix

end

/-! ## Constraints that an expression stands for -/

/-- Tags are written in letters of tags, and operands are joined where there are two or more. -/
inductive Expressible : Constraint → Prop
  | tag {name : List Char} : name ≠ [] → (∀ c ∈ name, isTagLetter c = true) → Expressible (.tag (String.ofList name))
  | not {e : Constraint} : Expressible e → Expressible (.not e)
  | and {es : List Constraint} : 2 ≤ es.length → (∀ e ∈ es, Expressible e) → Expressible (.and es)
  | or {es : List Constraint} : 2 ≤ es.length → (∀ e ∈ es, Expressible e) → Expressible (.or es)

theorem letters_of_lexes {s : List Char} {ks : List Kind} (h : Lexes s ks) {name : String} (hk : .tag name ∈ ks) :
    Expressible (.tag name) := by
  induction h with
  | nil => cases hk
  | blank _ _ ih => exact ih hk
  | sign hsign _ ih =>
    rcases List.mem_cons.mp hk with rfl | hk
    · cases hsign
    · exact ih hk
  | tag hne hname _ _ ih =>
    rcases List.mem_cons.mp hk with h | hk
    · cases h
      exact .tag hne hname
    · exact ih hk

mutual

theorem Alternatives.expressible : ∀ a : Alternatives, (∀ name, .tag name ∈ a.kinds → Expressible (.tag name)) →
    Expressible a.value ∧ ∀ e ∈ a.operands, Expressible e
  | .one a, h => by
    have ha := All.expressible a h
    exact ⟨ha.1, by simpa [Alternatives.operands] using ha.1⟩
  | .more a rest, h => by
    simp only [Alternatives.kinds, List.mem_append, List.mem_cons] at h
    have ha := (All.expressible a fun name hn => h name (Or.inl hn)).1
    have hrest := (Alternatives.expressible rest fun name hn => h name (Or.inr (Or.inr hn))).2
    have hall : ∀ e ∈ a.value :: rest.operands, Expressible e := List.forall_mem_cons.mpr ⟨ha, hrest⟩
    exact ⟨.or (Nat.succ_le_succ (List.length_pos_iff.mpr (Alternatives.operands_ne_nil rest))) hall, hall⟩

theorem All.expressible : ∀ a : All, (∀ name, .tag name ∈ a.kinds → Expressible (.tag name)) →
    Expressible a.value ∧ ∀ e ∈ a.operands, Expressible e
  | .one n, h => by
    have hn := Negation.expressible n h
    exact ⟨hn, by simpa [All.operands] using hn⟩
  | .more n rest, h => by
    simp only [All.kinds, List.mem_append, List.mem_cons] at h
    have hn := Negation.expressible n fun name hn => h name (Or.inl hn)
    have hrest := (All.expressible rest fun name hn => h name (Or.inr (Or.inr hn))).2
    have hall : ∀ e ∈ n.value :: rest.operands, Expressible e := List.forall_mem_cons.mpr ⟨hn, hrest⟩
    exact ⟨.and (Nat.succ_le_succ (List.length_pos_iff.mpr (All.operands_ne_nil rest))) hall, hall⟩

theorem Negation.expressible : ∀ n : Negation, (∀ name, .tag name ∈ n.kinds → Expressible (.tag name)) →
    Expressible n.value
  | .plain p, h => Primary.expressible p h
  | .negated p, h => .not (Primary.expressible p fun name hn => h name (List.mem_cons_of_mem _ hn))

theorem Primary.expressible : ∀ p : Primary, (∀ name, .tag name ∈ p.kinds → Expressible (.tag name)) →
    Expressible p.value
  | .tag name, h => h name (by simp [Primary.kinds])
  | .enclosed a, h => (Alternatives.expressible a fun name hn => h name (by simp [Primary.kinds, hn])).1

end

theorem expressible_of_ofGoBuild {s : List Char} {e : Constraint} (h : ofGoBuild s = .ok e) : Expressible e := by
  obtain ⟨ks, hlex, d, rfl, rfl⟩ := ofGoBuild_eq_ok.mp h
  exact (Alternatives.expressible d fun name hn => letters_of_lexes hlex hn).1

/-! ## Flattening -/

def conjuncts : Constraint → List Constraint
  | .and es => es
  | e => [e]

def disjuncts : Constraint → List Constraint
  | .or es => es
  | e => [e]

mutual

/-- The constraint without conjunctions in conjunctions and disjunctions in disjunctions. -/
def flat : Constraint → Constraint
  | .tag name => .tag name
  | .not e => .not e.flat
  | .and es => .and (flatConjuncts es)
  | .or es => .or (flatDisjuncts es)

def flatConjuncts : List Constraint → List Constraint
  | [] => []
  | e :: es => e.flat.conjuncts ++ flatConjuncts es

def flatDisjuncts : List Constraint → List Constraint
  | [] => []
  | e :: es => e.flat.disjuncts ++ flatDisjuncts es

end

theorem flat_not (e : Constraint) : (Constraint.not e).flat = .not e.flat := rfl

theorem flat_and (es : List Constraint) : (Constraint.and es).flat = .and (es.flatMap (·.flat.conjuncts)) := by
  have h : flatConjuncts es = es.flatMap (·.flat.conjuncts) := by
    induction es with
    | nil => rfl
    | cons e es ih => rw [flatConjuncts, ih, List.flatMap_cons]
  rw [flat, h]

theorem flat_or (es : List Constraint) : (Constraint.or es).flat = .or (es.flatMap (·.flat.disjuncts)) := by
  have h : flatDisjuncts es = es.flatMap (·.flat.disjuncts) := by
    induction es with
    | nil => rfl
    | cons e es ih => rw [flatDisjuncts, ih, List.flatMap_cons]
  rw [flat, h]

@[simp] theorem isOr_flat (e : Constraint) : e.flat.isOr = e.isOr := by cases e <;> rfl

@[simp] theorem isUnary_flat (e : Constraint) : e.flat.isUnary = e.isUnary := by cases e <;> rfl

theorem length_le_flatMap {α β : Type} {f : α → List β} {l : List α} (h : ∀ a ∈ l, 1 ≤ (f a).length) :
    l.length ≤ (l.flatMap f).length := by
  induction l with
  | nil => exact Nat.le_refl _
  | cons a l ih =>
    have ha := h a List.mem_cons_self
    have hl := ih fun b hb => h b (List.mem_cons_of_mem a hb)
    rw [List.flatMap_cons, List.length_append, List.length_cons]
    omega

theorem Expressible.conjuncts {e : Constraint} (h : Expressible e) :
    1 ≤ e.conjuncts.length ∧ ∀ c ∈ e.conjuncts, Expressible c := by
  cases h with
  | and hlength hes => exact ⟨by simp only [Constraint.conjuncts]; omega, hes⟩
  | tag hne hname => simpa [Constraint.conjuncts] using Expressible.tag hne hname
  | not h => simpa [Constraint.conjuncts] using Expressible.not h
  | or hlength hes => simpa [Constraint.conjuncts] using Expressible.or hlength hes

theorem Expressible.disjuncts {e : Constraint} (h : Expressible e) :
    1 ≤ e.disjuncts.length ∧ ∀ c ∈ e.disjuncts, Expressible c := by
  cases h with
  | or hlength hes => exact ⟨by simp only [Constraint.disjuncts]; omega, hes⟩
  | tag hne hname => simpa [Constraint.disjuncts] using Expressible.tag hne hname
  | not h => simpa [Constraint.disjuncts] using Expressible.not h
  | and hlength hes => simpa [Constraint.disjuncts] using Expressible.and hlength hes

theorem Expressible.flat {e : Constraint} (h : Expressible e) : Expressible e.flat := by
  induction h with
  | tag hne hname => exact .tag hne hname
  | not _ ih => exact .not ih
  | @and es hlength _ ih =>
    have hmore := length_le_flatMap fun e he => (ih e he).conjuncts.1
    rw [flat_and]
    exact .and (by omega) (List.forall_mem_flatMap.mpr fun e he => (ih e he).conjuncts.2)
  | @or es hlength _ ih =>
    have hmore := length_le_flatMap fun e he => (ih e he).disjuncts.1
    rw [flat_or]
    exact .or (by omega) (List.forall_mem_flatMap.mpr fun e he => (ih e he).disjuncts.2)

/-! ## What flattening keeps -/

theorem tagsAll_eq (es : List Constraint) : tagsAll es = es.flatMap tags := by
  induction es with
  | nil => rfl
  | cons e es ih => rw [tagsAll, ih, List.flatMap_cons]

theorem tags_conjuncts (e : Constraint) : e.conjuncts.flatMap tags = e.tags := by
  cases e with
  | and es => simp [conjuncts, tags, tagsAll_eq]
  | _ => simp [conjuncts]

theorem tags_disjuncts (e : Constraint) : e.disjuncts.flatMap tags = e.tags := by
  cases e with
  | or es => simp [disjuncts, tags, tagsAll_eq]
  | _ => simp [disjuncts]

theorem all_conjuncts (p : String → Bool) (e : Constraint) : (e.conjuncts.map (holds p)).all id = holds p e := by
  cases e with
  | and es => exact (holds_and p es).symm
  | _ => simp [conjuncts]

theorem any_disjuncts (p : String → Bool) (e : Constraint) : (e.disjuncts.map (holds p)).any id = holds p e := by
  cases e with
  | or es => exact (holds_or p es).symm
  | _ => simp [disjuncts]

variable {e : Constraint}

theorem Expressible.tags_flat (h : Expressible e) : e.flat.tags = e.tags := by
  induction h with
  | tag _ _ => rfl
  | not _ ih => exact ih
  | @and es _ _ ih =>
    rw [flat_and, tags, tags, tagsAll_eq, tagsAll_eq, List.flatMap_assoc]
    exact List.flatMap_congr fun e he => (tags_conjuncts e.flat).trans (ih e he)
  | @or es _ _ ih =>
    rw [flat_or, tags, tags, tagsAll_eq, tagsAll_eq, List.flatMap_assoc]
    exact List.flatMap_congr fun e he => (tags_disjuncts e.flat).trans (ih e he)

theorem Expressible.holds_flat (h : Expressible e) (p : String → Bool) : holds p e.flat = holds p e := by
  induction h with
  | tag _ _ => rfl
  | not _ ih => rw [flat_not, holds_not, holds_not, ih]
  | @and es _ _ ih =>
    have hmap : es.map (holds p) = es.map fun e => (e.flat.conjuncts.map (holds p)).all id :=
      List.map_congr_left fun e he => ((all_conjuncts p e.flat).trans (ih e he)).symm
    rw [flat_and, holds_and, holds_and, hmap, List.map_flatMap, List.all_flatMap, List.all_map]
    rfl
  | @or es _ _ ih =>
    have hmap : es.map (holds p) = es.map fun e => (e.flat.disjuncts.map (holds p)).any id :=
      List.map_congr_left fun e he => ((any_disjuncts p e.flat).trans (ih e he)).symm
    rw [flat_or, holds_or, holds_or, hmap, List.map_flatMap, List.any_flatMap, List.any_map]
    rfl

def operandSpelling (e : Constraint) : List Char := if e.isOr then enclosed e.spell else e.spell

theorem spell_and_eq (es : List Constraint) : (Constraint.and es).spell = " && ".toList.intercalate (es.map operandSpelling) := by
  have h : spellOperands es = es.map operandSpelling := by
    induction es with
    | nil => rfl
    | cons e es ih => rw [spellOperands, ih, List.map_cons, operandSpelling]
  rw [spell, h]
  rfl

theorem spell_or_eq (es : List Constraint) : (Constraint.or es).spell = " || ".toList.intercalate (es.map spell) := spell_or es

theorem row_conjuncts (e : Constraint) : " && ".toList.intercalate (e.conjuncts.map operandSpelling) = operandSpelling e := by
  cases e with
  | and es => exact (spell_and_eq es).symm
  | _ => exact List.intercalate_singleton

theorem row_disjuncts (e : Constraint) : " || ".toList.intercalate (e.disjuncts.map spell) = e.spell := by
  cases e with
  | or es => exact (spell_or_eq es).symm
  | _ => exact List.intercalate_singleton

theorem Expressible.spell_flat (h : Expressible e) : e.flat.spell = e.spell := by
  induction h with
  | tag _ _ => rfl
  | not _ ih => rw [flat_not, spell, spell, isUnary_flat, ih]
  | @and es _ hes ih =>
    rw [flat_and, spell_and_eq, spell_and_eq, List.map_flatMap]
    refine intercalate_flatMap (fun e he => ?_) fun e he => ?_
    · simpa using List.ne_nil_of_length_pos (hes e he).flat.conjuncts.1
    · rw [row_conjuncts, operandSpelling, operandSpelling, isOr_flat, ih e he]
  | @or es _ hes ih =>
    rw [flat_or, spell_or_eq, spell_or_eq, List.map_flatMap]
    refine intercalate_flatMap (fun e he => ?_) fun e he => ?_
    · simpa using List.ne_nil_of_length_pos (hes e he).flat.disjuncts.1
    · rw [row_disjuncts, ih e he]

end PackageIndex.Constraint
