/-
  PackageIndex.Proofs.Index.Writing — what holds of words when they are written holds later.

  A writer hands out offsets into a pool that goes on growing. `Ensures m P` says that what
  `m` writes has `P` for every table that the pool left by `m` can still grow into, so facts
  about records written one after another hold together of the table in the end.

  - `Ensures.bind`, `Ensures.mapM`: the rules for writing one thing behind the other.
  - `ensures_ref`: a string's offset names it.
  - `ensures_listWords`, `ensures_placed`: counted lists, and records with their addresses.
-/

import Mathlib.Data.List.Forall2
import PackageIndex.Index.Encoding
import PackageIndex.Proofs.Index.Strings

namespace PackageIndex.Encoding

def Within (p : StringPool) (t : StringTable) : Prop := ∃ more, t.bytes = (p.bytes ++ more).toArray

theorem within_trans {p q : StringPool} {t : StringTable} (h : p.bytes <+: q.bytes) (ht : Within q t) :
    Within p t := by
  obtain ⟨rest, hrest⟩ := h
  obtain ⟨more, hmore⟩ := ht
  exact ⟨rest ++ more, by rw [hmore, ← hrest, List.append_assoc]⟩

/-- What `m` writes has `P` for every table that the pool it leaves can grow into. -/
def Ensures {α : Type} (m : Writer α) (P : StringTable → α → Prop) : Prop :=
  ∀ p a q, p.Sound → m.run p = .ok (a, q) →
    q.Sound ∧ p.bytes <+: q.bytes ∧ ∀ t, Within q t → P t a

variable {α β : Type} {P : StringTable → α → Prop} {Q : StringTable → β → Prop}

/-! ## Rules -/

theorem ensures_pure {a : α} (h : ∀ t, P t a) : Ensures (pure a) P := by
  intro p b q hp hm
  cases hm
  exact ⟨hp, List.prefix_refl _, fun t _ => h t⟩

theorem ensures_throw (e : FormatError) : Ensures (throw e : Writer α) P := by
  intro p a q _ hm
  cases hm

theorem Ensures.bind {m : Writer α} {f : α → Writer β} (hm : Ensures m P)
    (hf : ∀ a, Ensures (f a) fun t b => P t a → Q t b) : Ensures (m >>= f) Q := by
  intro p b r hp h
  rw [StateT.run_bind] at h
  cases hr : m.run p with
  | error e => rw [hr] at h; cases h
  | ok aq =>
    obtain ⟨a, q⟩ := aq
    rw [hr] at h
    obtain ⟨hq, h1, hP⟩ := hm p a q hp hr
    obtain ⟨hr, h2, hQ⟩ := hf a q b r hq h
    exact ⟨hr, h1.trans h2, fun t ht => hQ t ht (hP t (within_trans h2 ht))⟩

theorem Ensures.mapM {f : α → Writer β} {R : StringTable → α → β → Prop} (hf : ∀ a, Ensures (f a) fun t => R t a)
    (l : List α) : Ensures (l.mapM f) fun t => List.Forall₂ (R t) l := by
  induction l with
  | nil => exact ensures_pure fun _ => .nil
  | cons a l ih =>
    rw [List.mapM_cons]
    exact (hf a).bind fun b => ih.bind fun bs => ensures_pure fun t hl hb => .cons hb hl

/-! ## Words -/

/-- The offset of a string names it from then on. -/
theorem ensures_ref (s : String) : Ensures (ref s) fun t w => t.get w = .ok s := by
  intro p w q hp h
  obtain ⟨hq, hpre, hget⟩ := StringPool.intern_sound hp h
  refine ⟨hq, hpre, fun t ⟨more, ht⟩ => ?_⟩
  have := StringTable.get_append hget more.toArray
  rw [List.append_toArray] at this
  cases t
  cases ht
  exact this

theorem toNat_toUInt32 {n : Nat} (h : FitsWord n) : n.toUInt32.toNat = n := by
  simp only [Nat.toUInt32, UInt32.toNat_ofNat']
  omega

theorem ensures_count (n : Nat) : Ensures (count n) fun _ w => w.toNat = n := by
  unfold count
  split
  · rename_i h
    exact ensures_pure fun _ => toNat_toUInt32 h
  · exact ensures_throw _

theorem ensures_address (n : Nat) : Ensures (address n) fun _ w => w.toNat = n := by
  unfold address
  split
  · rename_i h
    exact ensures_pure fun _ => toNat_toUInt32 h
  · exact ensures_throw _

/-! ## Lists and records -/

def ListWords (R : α → List UInt32 → Prop) (l : List α) (ws : List UInt32) : Prop :=
  ∃ n items, ws = n :: items.flatten ∧ n.toNat = l.length ∧ List.Forall₂ R l items

theorem ensures_listWords {item : α → Writer (List UInt32)} {R : StringTable → α → List UInt32 → Prop}
    (h : ∀ a, Ensures (item a) fun t => R t a) (l : List α) :
    Ensures (listWords item l) fun t => ListWords (R t) l :=
  (ensures_count l.length).bind fun n => (Ensures.mapM h l).bind fun items =>
    ensures_pure fun _ hitems hn => ⟨n, items, rfl, hn, hitems⟩

/-- Records one behind the other from `start` on, each with its address. -/
inductive Placed (R : Nat → List UInt32 → α → Prop) : (start : Nat) → List α → List UInt32 → List UInt32 → Prop
  | nil (start : Nat) : Placed R start [] [] []
  | cons {start : Nat} {here : UInt32} {a : α} {l : List α} {ws offsets more : List UInt32} :
      here.toNat = start → R start ws a → Placed R (start + 4 * ws.length) l offsets more →
      Placed R start (a :: l) (here :: offsets) (ws ++ more)

theorem ensures_placed {record : Nat → α → Writer (List UInt32)} {R : StringTable → Nat → List UInt32 → α → Prop}
    (h : ∀ start a, Ensures (record start a) fun t ws => R t start ws a) (l : List α) (start : Nat) :
    Ensures (placed record start l) fun t r => Placed (R t) start l r.1 r.2 := by
  induction l generalizing start with
  | nil => exact ensures_pure fun _ => .nil start
  | cons a l ih =>
    unfold placed
    exact (ensures_address start).bind fun here => (h start a).bind fun ws =>
      (ih (start + 4 * ws.length)).bind fun r => ensures_pure fun _ hr hws hhere => .cons hhere hws hr

end PackageIndex.Encoding
