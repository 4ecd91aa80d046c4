/-
  PackageIndex.Proofs.Constraint.Grammar — the grammar of `//go:build` expressions.

    alternatives := all ('||' all)*        all := negation ('&&' negation)*
    negation     := '!' primary | primary  primary := tag | '(' alternatives ')'

  A derivation is a tree with a constructor for each rule. `kinds` are the tokens at its
  leaves, `value` is the constraint that it stands for: operands are joined where there are
  two or more, and parentheses leave nothing behind.

  - `Alternatives.eq_of_kinds`: tokens have one derivation at most. A primary and a negation
    end where their tokens do, whatever follows; a chain of operands ends where no operator
    of its own follows.
-/

import PackageIndex.Constraint.Basic
import PackageIndex.Constraint.Token

namespace PackageIndex.Constraint.Grammar

mutual

inductive Alternatives where
  | one (a : All)
  | more (a : All) (rest : Alternatives)

inductive All where
  | one (n : Negation)
  | more (n : Negation) (rest : All)

inductive Negation where
  | plain (p : Primary)
  | negated (p : Primary)

inductive Primary where
  | tag (name : String)
  | enclosed (a : Alternatives)

end

/-! ## Tokens -/

mutual

def Alternatives.kinds : Alternatives → List Kind
  | .one a => a.kinds
  | .more a rest => a.kinds ++ .orOr :: rest.kinds

def All.kinds : All → List Kind
  | .one n => n.kinds
  | .more n rest => n.kinds ++ .andAnd :: rest.kinds

def Negation.kinds : Negation → List Kind
  | .plain p => p.kinds
  | .negated p => .bang :: p.kinds

def Primary.kinds : Primary → List Kind
  | .tag name => [.tag name]
  | .enclosed a => .opening :: a.kinds ++ [.closing]

end

/-! ## Constraints -/

mutual

def Alternatives.operands : Alternatives → List Constraint
  | .one a => [a.value]
  | .more a rest => a.value :: rest.operands

def Alternatives.value : Alternatives → Constraint
  | .one a => a.value
  | .more a rest => .or (a.value :: rest.operands)

def All.operands : All → List Constraint
  | .one n => [n.value]
  | .more n rest => n.value :: rest.operands

def All.value : All → Constraint
  | .one n => n.value
  | .more n rest => .and (n.value :: rest.operands)

def Negation.value : Negation → Constraint
  | .plain p => p.value
  | .negated p => .not p.value

def Primary.value : Primary → Constraint
  | .tag name => .tag name
  | .enclosed a => a.value

end

/-! ## One derivation at most -/

mutual

theorem Alternatives.eq_of_kinds : ∀ (a b : Alternatives) {r s : List Kind},
    r.head? ≠ some .orOr → r.head? ≠ some .andAnd → s.head? ≠ some .orOr → s.head? ≠ some .andAnd →
    a.kinds ++ r = b.kinds ++ s → a = b ∧ r = s
  | .one a, .one b, r, s, _, hr, _, hs, h => by
    obtain ⟨rfl, rfl⟩ := All.eq_of_kinds a b hr hs h
    exact ⟨rfl, rfl⟩
  | .one a, .more b rest, r, s, hr, hr', _, _, h => by
    simp only [Alternatives.kinds, List.append_assoc, List.cons_append] at h
    obtain ⟨-, rfl⟩ := All.eq_of_kinds a b hr' (by simp) h
    simp at hr
  | .more a rest, .one b, r, s, _, _, hs, hs', h => by
    simp only [Alternatives.kinds, List.append_assoc, List.cons_append] at h
    obtain ⟨-, rfl⟩ := All.eq_of_kinds a b (by simp) hs' h
    simp at hs
  | .more a rest, .more b rest', r, s, hr, hr', hs, hs', h => by
    simp only [Alternatives.kinds, List.append_assoc, List.cons_append] at h
    obtain ⟨rfl, hrest⟩ := All.eq_of_kinds a b (by simp) (by simp) h
    obtain ⟨rfl, rfl⟩ := Alternatives.eq_of_kinds rest rest' hr hr' hs hs' (List.cons.inj hrest).2
    exact ⟨rfl, rfl⟩

theorem All.eq_of_kinds : ∀ (a b : All) {r s : List Kind},
    r.head? ≠ some .andAnd → s.head? ≠ some .andAnd → a.kinds ++ r = b.kinds ++ s → a = b ∧ r = s
  | .one n, .one m, r, s, _, _, h => by
    obtain ⟨rfl, rfl⟩ := Negation.eq_of_kinds n m h
    exact ⟨rfl, rfl⟩
  | .one n, .more m rest, r, s, hr, _, h => by
    simp only [All.kinds, List.append_assoc, List.cons_append] at h
    obtain ⟨-, rfl⟩ := Negation.eq_of_kinds n m h
    simp at hr
  | .more n rest, .one m, r, s, _, hs, h => by
    simp only [All.kinds, List.append_assoc, List.cons_append] at h
    obtain ⟨-, rfl⟩ := Negation.eq_of_kinds n m h
    simp at hs
  | .more n rest, .more m rest', r, s, hr, hs, h => by
    simp only [All.kinds, List.append_assoc, List.cons_append] at h
    obtain ⟨rfl, hrest⟩ := Negation.eq_of_kinds n m h
    obtain ⟨rfl, rfl⟩ := All.eq_of_kinds rest rest' hr hs (List.cons.inj hrest).2
    exact ⟨rfl, rfl⟩

theorem Negation.eq_of_kinds : ∀ (n m : Negation) {r s : List Kind}, n.kinds ++ r = m.kinds ++ s → n = m ∧ r = s
  | .plain p, .plain q, r, s, h => by
    obtain ⟨rfl, rfl⟩ := Primary.eq_of_kinds p q h
    exact ⟨rfl, rfl⟩
  | .plain p, .negated q, r, s, h => by cases p <;> simp [Negation.kinds, Primary.kinds] at h
  | .negated p, .plain q, r, s, h => by cases q <;> simp [Negation.kinds, Primary.kinds] at h
  | .negated p, .negated q, r, s, h => by
    simp only [Negation.kinds, List.cons_append] at h
    obtain ⟨rfl, rfl⟩ := Primary.eq_of_kinds p q (List.cons.inj h).2
    exact ⟨rfl, rfl⟩

theorem Primary.eq_of_kinds : ∀ (p q : Primary) {r s : List Kind}, p.kinds ++ r = q.kinds ++ s → p = q ∧ r = s
  | .tag name, .tag other, r, s, h => by
    simp only [Primary.kinds, List.cons_append, List.nil_append, List.cons.injEq, Kind.tag.injEq] at h
    obtain ⟨rfl, rfl⟩ := h
    exact ⟨rfl, rfl⟩
  | .tag name, .enclosed b, r, s, h => by simp [Primary.kinds] at h
  | .enclosed a, .tag name, r, s, h => by simp [Primary.kinds] at h
  | .enclosed a, .enclosed b, r, s, h => by
    simp only [Primary.kinds, List.cons_append, List.append_assoc, List.nil_append, List.cons.injEq, true_and] at h
    obtain ⟨rfl, hrest⟩ := Alternatives.eq_of_kinds a b (by simp) (by simp) (by simp) (by simp) h
    exact ⟨rfl, (List.cons.inj hrest).2⟩

end

end PackageIndex.Constraint.Grammar
