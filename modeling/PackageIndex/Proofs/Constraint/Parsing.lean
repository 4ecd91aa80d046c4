/-
  PackageIndex.Proofs.Constraint.Parsing — an expression is read exactly where the grammar derives it.

  What a reader does is told by a relation `R` between tokens and what they spell.
  - `Sound r R`: what `r` reads is spelt by the tokens that it takes off the front.
  - `Complete size stops r R`: `r` reads what is spelt by `size` tokens at most, unless a
    token among `stops` comes next, with which it could go on.
  Both go from an operand to a chain of operands (`sound_operands`, `complete_operands`),
  so each level has them from the one below, and a primary by induction on the depth.

  - `ofGoBuild_iff_derivation`: a text is a constraint exactly where its tokens have a
    derivation, it is then the derivation's value, and there is no other derivation.
-/

import Mathlib.Data.Set.Subsingleton
import PackageIndex.Constraint.Parser
import PackageIndex.Proofs.Constraint.Grammar
import PackageIndex.Proofs.Constraint.Lexing

namespace PackageIndex.Constraint

open Fallible Grammar

variable {α : Type}

def Sound (r : Reader α) (R : List Kind → α → Prop) : Prop :=
  ∀ ts a rest, r ts = .ok (a, rest) → ∃ front, ts = front ++ rest ∧ R (front.map Token.kind) a

def Complete (size : Nat) (stops : List Kind) (r : Reader α) (R : List Kind → α → Prop) : Prop :=
  ∀ front rest a, R (front.map Token.kind) a → front.length ≤ size → (∀ t ∈ rest.head?, t.kind ∉ stops) →
    r (front ++ rest) = .ok (a, rest)

/-! ## Chains of operands -/

/-- Operands with `op` between them, each spelt as `R` says. -/
inductive Chain (op : Kind) (R : List Kind → Constraint → Prop) : List Kind → List Constraint → Prop
  | one {ks : List Kind} {e : Constraint} : R ks e → Chain op R ks [e]
  | more {ks ls : List Kind} {e : Constraint} {es : List Constraint} : R ks e → Chain op R ls es →
      Chain op R (ks ++ op :: ls) (e :: es)

variable {op : Kind} {join : List Constraint → Constraint} {r : Reader Constraint}
  {R : List Kind → Constraint → Prop} {size : Nat} {stops : List Kind}

theorem sound_operands (hr : Sound r R) (n : Nat) : Sound (operands op r n) (Chain op R) := by
  induction n with
  | zero =>
    intro ts es rest h
    cases h
  | succ n ih =>
    intro ts es rest h
    obtain ⟨⟨e, mid⟩, he, hmid⟩ := bind_eq_ok.mp h
    obtain ⟨front, rfl, hR⟩ := hr ts e mid he
    cases mid with
    | nil =>
      cases hmid
      exact ⟨front, rfl, .one hR⟩
    | cons t more =>
      simp only at hmid
      split at hmid
      · rename_i hop
        obtain ⟨⟨es', rest'⟩, hes, hmore⟩ := bind_eq_ok.mp hmid
        cases hmore
        obtain ⟨front', rfl, hchain⟩ := ih more es' rest' hes
        refine ⟨front ++ t :: front', by simp, ?_⟩
        rw [List.map_append, List.map_cons, hop]
        exact .more hR hchain
      · cases hmid
        exact ⟨front, rfl, .one hR⟩

theorem complete_operands (hr : Complete size stops r R) (hop : op ∉ stops) (hR : ∀ e, ¬ R [] e) {ks : List Kind}
    {es : List Constraint} (h : Chain op R ks es) : ∀ (n : Nat) (front rest : List Token),
      front.map Token.kind = ks → front.length ≤ size → front.length ≤ n →
      (∀ t ∈ rest.head?, t.kind ∉ op :: stops) → operands op r n (front ++ rest) = .ok (es, rest) := by
  induction h with
  | @one ks e he =>
    intro n front rest hks hsize hn hrest
    cases n with
    | zero =>
      rw [List.length_eq_zero_iff.mp (Nat.le_zero.mp hn), List.map_nil] at hks
      rw [← hks] at he
      exact absurd he (hR e)
    | succ n =>
      have hread := hr front rest e (hks ▸ he) hsize fun t ht hstop => hrest t ht (List.mem_cons_of_mem _ hstop)
      unfold operands
      rw [hread]
      cases rest with
      | nil => rfl
      | cons t rest =>
        have hne : t.kind ≠ op := by
          intro heq
          exact hrest t rfl (heq ▸ List.mem_cons_self)
        simp only [bind, Except.bind, if_neg hne]
        rfl
  | @more ks ls e es he _ ih =>
    intro n front rest hks hsize hn hrest
    obtain ⟨front, tail, rfl, hfront, htail⟩ := List.map_eq_append_iff.mp hks
    obtain ⟨t, front', rfl, hkind, hfront'⟩ := List.map_eq_cons_iff.mp htail
    simp only [List.length_append, List.length_cons] at hsize hn
    cases n with
    | zero => omega
    | succ n =>
      have hread := hr front (t :: front' ++ rest) e (hfront ▸ he) (by omega) (by
        intro u hu hstop
        cases hu
        exact hop (hkind ▸ hstop))
      have hmore := ih n front' rest hfront' (by omega) (by omega) hrest
      unfold operands
      rw [List.append_assoc, hread]
      simp only [List.cons_append, bind, Except.bind, if_pos hkind, hmore]
      rfl

def Joined (op : Kind) (join : List Constraint → Constraint) (R : List Kind → Constraint → Prop) (ks : List Kind)
    (e : Constraint) : Prop := ∃ es, Chain op R ks es ∧ joined join es = e

theorem sound_level (hr : Sound r R) : Sound (level op join r) (Joined op join R) := by
  intro ts e rest h
  obtain ⟨⟨es, rest'⟩, hes, h⟩ := bind_eq_ok.mp h
  cases h
  obtain ⟨front, hts, hchain⟩ := sound_operands hr _ ts es rest hes
  exact ⟨front, hts, es, hchain, rfl⟩

theorem complete_level (hr : Complete size stops r R) (hop : op ∉ stops) (hR : ∀ e, ¬ R [] e) :
    Complete size (op :: stops) (level op join r) (Joined op join R) := by
  rintro front rest e ⟨es, hchain, rfl⟩ hsize hrest
  have hn : front.length ≤ (front ++ rest).length := by simp
  unfold level
  rw [complete_operands hr hop hR hchain _ front rest rfl hsize hn hrest]
  rfl

/-! ## Levels of the grammar -/

/-- The tokens `ks` have a derivation with the value `e`. -/
def Derives {D : Type} (kinds : D → List Kind) (value : D → Constraint) (ks : List Kind) (e : Constraint) : Prop :=
  ∃ d, kinds d = ks ∧ value d = e

theorem All.operands_ne_nil (a : All) : a.operands ≠ [] := by cases a <;> simp [All.operands]

theorem Alternatives.operands_ne_nil (a : Alternatives) : a.operands ≠ [] := by cases a <;> simp [Alternatives.operands]

theorem joined_cons {e : Constraint} {es : List Constraint} (h : es ≠ []) : joined join (e :: es) = join (e :: es) := by
  cases es with
  | nil => exact absurd rfl h
  | cons _ _ => rfl

theorem All.joined_operands (a : All) : joined .and a.operands = a.value := by
  cases a with
  | one n => rfl
  | more n rest => exact joined_cons (All.operands_ne_nil rest)

theorem Alternatives.joined_operands (a : Alternatives) : joined .or a.operands = a.value := by
  cases a with
  | one n => rfl
  | more n rest => exact joined_cons (Alternatives.operands_ne_nil rest)

theorem All.chain : ∀ a : All, Chain .andAnd (Derives Negation.kinds Negation.value) a.kinds a.operands
  | .one n => .one ⟨n, rfl, rfl⟩
  | .more n rest => .more ⟨n, rfl, rfl⟩ (All.chain rest)

theorem Alternatives.chain : ∀ a : Alternatives, Chain .orOr (Derives All.kinds All.value) a.kinds a.operands
  | .one a => .one ⟨a, rfl, rfl⟩
  | .more a rest => .more ⟨a, rfl, rfl⟩ (Alternatives.chain rest)

theorem derives_all :
    Derives All.kinds All.value = Joined .andAnd .and (Derives Negation.kinds Negation.value) := by
  funext ks e
  apply propext
  constructor
  · rintro ⟨a, rfl, rfl⟩
    exact ⟨a.operands, All.chain a, All.joined_operands a⟩
  · rintro ⟨es, h, rfl⟩
    have hall : ∃ a : All, a.kinds = ks ∧ a.operands = es := by
      induction h with
      | one h =>
        obtain ⟨n, rfl, rfl⟩ := h
        exact ⟨.one n, rfl, rfl⟩
      | more h _ ih =>
        obtain ⟨n, rfl, rfl⟩ := h
        obtain ⟨rest, rfl, rfl⟩ := ih
        exact ⟨.more n rest, rfl, rfl⟩
    obtain ⟨a, rfl, rfl⟩ := hall
    exact ⟨a, rfl, (All.joined_operands a).symm⟩

theorem derives_alternatives :
    Derives Alternatives.kinds Alternatives.value = Joined .orOr .or (Derives All.kinds All.value) := by
  funext ks e
  apply propext
  constructor
  · rintro ⟨a, rfl, rfl⟩
    exact ⟨a.operands, Alternatives.chain a, Alternatives.joined_operands a⟩
  · rintro ⟨es, h, rfl⟩
    have hall : ∃ a : Alternatives, a.kinds = ks ∧ a.operands = es := by
      induction h with
      | one h =>
        obtain ⟨a, rfl, rfl⟩ := h
        exact ⟨.one a, rfl, rfl⟩
      | more h _ ih =>
        obtain ⟨a, rfl, rfl⟩ := h
        obtain ⟨rest, rfl, rfl⟩ := ih
        exact ⟨.more a rest, rfl, rfl⟩
    obtain ⟨a, rfl, rfl⟩ := hall
    exact ⟨a, rfl, (Alternatives.joined_operands a).symm⟩

/-! ## The readers of the levels -/

section
variable {primary : Reader Constraint}

theorem sound_negation (hp : Sound primary (Derives Primary.kinds Primary.value)) :
    Sound (negation primary) (Derives Negation.kinds Negation.value) := by
  intro ts e rest h
  unfold negation at h
  split at h
  · cases h
  · rename_i offset ts _
    obtain ⟨⟨e', rest'⟩, he, hk⟩ := bind_eq_ok.mp h
    cases hk
    obtain ⟨front, rfl, p, hkinds, rfl⟩ := hp ts e' rest he
    exact ⟨⟨.bang, offset⟩ :: front, rfl, .negated p, by simp [Negation.kinds, hkinds], rfl⟩
  · obtain ⟨front, rfl, p, hkinds, rfl⟩ := hp _ e rest h
    exact ⟨front, rfl, .plain p, hkinds, rfl⟩

theorem Primary.kinds_head (p : Primary) : ∃ k ks, p.kinds = k :: ks ∧ k ≠ .bang := by
  cases p with
  | tag name => exact ⟨.tag name, [], rfl, by simp⟩
  | enclosed a => exact ⟨.opening, a.kinds ++ [.closing], rfl, by simp⟩

theorem negation_of_not_bang {t : Token} (h : t.kind ≠ .bang) (ts : List Token) :
    negation primary (t :: ts) = primary (t :: ts) := by
  obtain ⟨kind, offset⟩ := t
  unfold negation
  split <;> simp_all

theorem negation_of_bang {offset : Nat} {t : Token} (h : t.kind ≠ .bang) (ts : List Token) :
    negation primary (⟨.bang, offset⟩ :: t :: ts) =
      (do let (e, rest) ← primary (t :: ts); return (.not e, rest)) := by
  obtain ⟨kind, offset⟩ := t
  unfold negation
  split <;> simp_all

theorem complete_negation {size : Nat} (hp : Complete size [] primary (Derives Primary.kinds Primary.value)) :
    Complete size [] (negation primary) (Derives Negation.kinds Negation.value) := by
  rintro front rest e ⟨d, hkinds, rfl⟩ hsize hrest
  cases d with
  | plain p =>
    obtain ⟨k, ks, hhead, hk⟩ := Primary.kinds_head p
    have hread := hp front rest p.value ⟨p, hkinds, rfl⟩ hsize hrest
    obtain ⟨t, front, rfl, rfl, -⟩ := List.map_eq_cons_iff.mp (hkinds.symm.trans hhead)
    rw [List.cons_append, negation_of_not_bang hk]
    exact hread
  | negated p =>
    obtain ⟨⟨_, offset⟩, front, rfl, rfl, hfront⟩ := List.map_eq_cons_iff.mp hkinds.symm
    obtain ⟨k, ks, hhead, hk⟩ := Primary.kinds_head p
    have hread := hp front rest p.value ⟨p, hfront.symm, rfl⟩ (by simp at hsize; omega) hrest
    obtain ⟨t, front, rfl, rfl, -⟩ := List.map_eq_cons_iff.mp (hfront.trans hhead)
    rw [List.cons_append, List.cons_append, negation_of_bang hk, ← List.cons_append, hread]
    rfl

theorem not_derives_negation (e : Constraint) : ¬ Derives Negation.kinds Negation.value [] e := by
  rintro ⟨d, hd, -⟩
  cases d with
  | plain p =>
    obtain ⟨k, ks, hk, -⟩ := Primary.kinds_head p
    simp [Negation.kinds, hk] at hd
  | negated p => simp [Negation.kinds] at hd

theorem not_derives_all (e : Constraint) : ¬ Derives All.kinds All.value [] e := by
  rintro ⟨d, hd, -⟩
  cases d with
  | one n => exact not_derives_negation n.value ⟨n, hd, rfl⟩
  | more n rest => simp [All.kinds] at hd

theorem sound_alternatives (hp : Sound primary (Derives Primary.kinds Primary.value)) :
    Sound (alternatives primary) (Derives Alternatives.kinds Alternatives.value) := by
  have hall : Sound (level .andAnd .and (negation primary)) (Derives All.kinds All.value) := by
    rw [derives_all]
    exact sound_level (sound_negation hp)
  rw [derives_alternatives]
  exact sound_level hall

theorem complete_alternatives {size : Nat} (hp : Complete size [] primary (Derives Primary.kinds Primary.value)) :
    Complete size [.orOr, .andAnd] (alternatives primary) (Derives Alternatives.kinds Alternatives.value) := by
  have hall : Complete size [.andAnd] (level .andAnd .and (negation primary)) (Derives All.kinds All.value) := by
    rw [derives_all]
    exact complete_level (complete_negation hp) (by simp) not_derives_negation
  rw [derives_alternatives]
  exact complete_level hall (by simp) not_derives_all

end

/-! ## Parentheses -/

theorem sound_tag {name : String} {offset : Nat} {ts rest : List Token} {e : Constraint}
    (h : (Except.ok (.tag name, ts) : Except SyntaxError (Constraint × List Token)) = .ok (e, rest)) :
    ∃ front, ⟨.tag name, offset⟩ :: ts = front ++ rest ∧
      Derives Primary.kinds Primary.value (front.map Token.kind) e := by
  cases h
  exact ⟨[⟨.tag name, offset⟩], rfl, .tag name, rfl, rfl⟩

theorem sound_primary (depth : Nat) : Sound (primary depth) (Derives Primary.kinds Primary.value) := by
  induction depth with
  | zero =>
    intro ts e rest h
    rcases ts with _ | ⟨⟨kind, offset⟩, ts⟩
    · cases h
    · cases kind with
      | tag name => exact sound_tag h
      | _ => cases h
  | succ depth ih =>
    intro ts e rest h
    rcases ts with _ | ⟨⟨kind, offset⟩, ts⟩
    · cases h
    · cases kind with
      | tag name => exact sound_tag h
      | opening =>
        obtain ⟨⟨e', mid⟩, he, hmid⟩ := bind_eq_ok.mp h
        obtain ⟨front, rfl, a, hkinds, rfl⟩ := sound_alternatives ih ts e' mid he
        simp only at hmid
        split at hmid
        · rename_i offset' after
          cases hmid
          refine ⟨⟨.opening, offset⟩ :: front ++ [⟨.closing, offset'⟩], by simp, .enclosed a, ?_, rfl⟩
          simp [Primary.kinds, hkinds]
        · cases hmid
      | _ => cases h

theorem complete_primary (depth : Nat) : Complete depth [] (primary depth) (Derives Primary.kinds Primary.value) := by
  induction depth with
  | zero =>
    rintro front rest e ⟨p, hkinds, rfl⟩ hsize -
    obtain ⟨k, ks, hk, -⟩ := Primary.kinds_head p
    rw [List.length_eq_zero_iff.mp (Nat.le_zero.mp hsize), hk] at hkinds
    cases hkinds
  | succ depth ih =>
    rintro front rest e ⟨p, hkinds, rfl⟩ hsize -
    cases p with
    | tag name =>
      obtain ⟨⟨_, offset⟩, front', rfl, rfl, hfront⟩ := List.map_eq_cons_iff.mp hkinds.symm
      rw [List.map_eq_nil_iff.mp hfront]
      rfl
    | enclosed a =>
      simp only [Primary.kinds, List.cons_append] at hkinds
      obtain ⟨⟨_, offset⟩, front', rfl, rfl, hfront⟩ := List.map_eq_cons_iff.mp hkinds.symm
      obtain ⟨inner, tail, rfl, hinner, htail⟩ := List.map_eq_append_iff.mp hfront
      obtain ⟨⟨_, offset'⟩, nothing, rfl, rfl, hnothing⟩ := List.map_eq_cons_iff.mp htail
      rw [List.map_eq_nil_iff.mp hnothing] at hsize ⊢
      simp only [List.length_cons, List.length_append, List.length_nil] at hsize
      have hread := complete_alternatives ih inner (⟨.closing, offset'⟩ :: rest) a.value ⟨a, hinner.symm, rfl⟩
        (by omega) (by simp)
      simp only [List.cons_append, List.append_assoc, List.nil_append]
      show (alternatives (primary depth) _ >>= _) = _
      rw [hread]
      rfl

/-! ## The whole -/

theorem ofTokens_eq_ok {ts : List Token} {e : Constraint} :
    ofTokens ts = .ok e ↔ Derives Alternatives.kinds Alternatives.value (ts.map Token.kind) e := by
  constructor
  · intro h
    obtain ⟨⟨e', rest⟩, he, hrest⟩ := bind_eq_ok.mp h
    obtain ⟨front, rfl, hd⟩ := sound_alternatives (sound_primary _) ts e' rest he
    cases rest with
    | nil =>
      cases hrest
      rwa [List.append_nil]
    | cons t rest => cases hrest
  · intro hd
    have hread := complete_alternatives (complete_primary ts.length) ts [] e hd (Nat.le_refl _) (by simp)
    rw [List.append_nil] at hread
    unfold ofTokens
    rw [hread]
    rfl

theorem ofGoBuild_eq_ok {s : List Char} {e : Constraint} :
    ofGoBuild s = .ok e ↔ ∃ ks, Lexes s ks ∧ Derives Alternatives.kinds Alternatives.value ks e := by
  constructor
  · intro h
    obtain ⟨ts, hts, he⟩ := bind_eq_ok.mp h
    exact ⟨ts.map Token.kind, lexes_of_tokens hts, ofTokens_eq_ok.mp he⟩
  · rintro ⟨ks, hs, hd⟩
    obtain ⟨ts, hts, rfl⟩ := tokens_of_lexes hs 0
    exact bind_eq_ok.mpr ⟨ts, hts, ofTokens_eq_ok.mpr hd⟩

/-- A text is read as a constraint exactly where its tokens have a derivation, which is the only one
and of which the constraint is the value. -/
theorem ofGoBuild_iff_derivation (s : List Char) :
    (∀ e, ofGoBuild s = .ok e ↔ ∃ d : Alternatives, Lexes s d.kinds ∧ d.value = e) ∧
      {d : Alternatives | Lexes s d.kinds}.Subsingleton := by
  constructor
  · intro e
    rw [ofGoBuild_eq_ok]
    constructor
    · rintro ⟨_, hs, d, rfl, hvalue⟩
      exact ⟨d, hs, hvalue⟩
    · rintro ⟨d, hs, hvalue⟩
      exact ⟨d.kinds, hs, d, rfl, hvalue⟩
  · intro d hd d' hd'
    have hkinds : d.kinds ++ [] = d'.kinds ++ [] := by rw [Lexes.unique hd hd']
    exact (Alternatives.eq_of_kinds d d' (by simp) (by simp) (by simp) (by simp) hkinds).1

end PackageIndex.Constraint
