/-
  PackageIndex.Proofs.Index.Size — which packages can be written as an index.

  Two things can keep packages from being written: a text with a zero character in it, which
  the string table cannot hold, and their size. `Stores bound m texts P` says that `m` puts
  `texts` into the pool and answers something with `P`, if there is no zero in them and the
  table stays within `bound`; and that it does not answer if there is one. It goes through
  the writing of lists and records.

  - `indexSize`: how many bytes an index takes, told by its packages alone.
  - `nulFree_of_indexBytes`, `indexBytes_of_nulFree`: packages that fit are written exactly if
    no text of theirs holds a zero.
-/

import Mathlib.Algebra.Ring.Nat
import Mathlib.Data.List.Dedup
import Mathlib.Data.List.Perm.Basic
import PackageIndex.Proofs.Fallible
import PackageIndex.Proofs.Index.Records
import PackageIndex.Proofs.Record.Texts
import PackageIndex.Proofs.Text.Parts

namespace PackageIndex

open Fallible

/-! ## Sizes -/

def FileRecord.words (f : FileRecord) : Nat :=
  13 + f.plusBuild.length + 6 * f.imports.length + 5 * f.flatEmbeds.length

def PackageRecord.words (p : PackageRecord) : Nat := 5 + p.files.length + (p.files.map FileRecord.words).sum

/-- How many bytes a string table takes: one, and for each different text its own and one more. -/
def tableSize (texts : List String) : Nat :=
  1 + (((texts.filter (· ≠ "")).dedup).map fun s => Utf8.size s.toList + 1).sum

def indexSize (ps : List PackageRecord) : Nat :=
  20 + 4 * (2 * ps.length + (ps.map PackageRecord.words).sum) + tableSize (textsOf ps)

/-! ## The pool -/

namespace StringPool

def add (p : StringPool) (s : String) : StringPool :=
  if s = "" ∨ (p.entries.lookup s).isSome then p
  else ⟨(s, p.size) :: p.entries, p.size + Utf8.size s.toList + 1⟩

def addAll (p : StringPool) (texts : List String) : StringPool := texts.foldl add p

@[simp] theorem addAll_nil (p : StringPool) : p.addAll [] = p := rfl

theorem addAll_append (p : StringPool) (ss ts : List String) : p.addAll (ss ++ ts) = (p.addAll ss).addAll ts :=
  List.foldl_append

theorem size_le_add (p : StringPool) (s : String) : p.size ≤ (p.add s).size := by
  unfold add
  split
  · exact Nat.le_refl _
  · show p.size ≤ p.size + Utf8.size s.toList + 1
    omega

theorem size_le_addAll (p : StringPool) (texts : List String) : p.size ≤ (p.addAll texts).size := by
  induction texts generalizing p with
  | nil => exact Nat.le_refl _
  | cons s texts ih => exact Nat.le_trans (p.size_le_add s) (ih (p.add s))

structure Counted (p : StringPool) : Prop where
  nodup : (p.entries.map (·.1)).Nodup
  size_eq : p.size = 1 + ((p.entries.map (·.1)).map fun s => Utf8.size s.toList + 1).sum

theorem counted_add {p : StringPool} (hp : p.Counted) (s : String) :
    (p.add s).Counted ∧ ∀ t, t ∈ (p.add s).entries.map (·.1) ↔ t ∈ p.entries.map (·.1) ∨ t = s ∧ t ≠ "" := by
  unfold add
  split
  · rename_i h
    refine ⟨hp, fun t => ⟨Or.inl, ?_⟩⟩
    rintro (ht | ⟨rfl, hne⟩)
    · exact ht
    · rcases h with h | h
      · exact absurd h hne
      · exact lookup_isSome_iff.mp h
  · rename_i h
    have hnew : s ∉ p.entries.map (·.1) := fun hs => h (Or.inr (lookup_isSome_iff.mpr hs))
    have hne : s ≠ "" := fun hs => h (Or.inl hs)
    refine ⟨⟨List.nodup_cons.mpr ⟨hnew, hp.nodup⟩, ?_⟩, fun t => ?_⟩
    · have hsize := hp.size_eq
      simp only [List.map_cons, List.sum_cons]
      omega
    · rw [List.map_cons, List.mem_cons]
      constructor
      · rintro (rfl | ht)
        · exact Or.inr ⟨rfl, hne⟩
        · exact Or.inl ht
      · rintro (ht | ⟨rfl, -⟩)
        · exact Or.inr ht
        · exact Or.inl rfl

theorem counted_addAll {p : StringPool} (hp : p.Counted) (texts : List String) :
    (p.addAll texts).Counted ∧
      ∀ t, t ∈ (p.addAll texts).entries.map (·.1) ↔ t ∈ p.entries.map (·.1) ∨ t ∈ texts ∧ t ≠ "" := by
  induction texts generalizing p with
  | nil => exact ⟨hp, fun t => by simp⟩
  | cons s texts ih =>
    obtain ⟨hadd, hmem⟩ := counted_add hp s
    obtain ⟨hall, hmem'⟩ := ih hadd
    refine ⟨hall, fun t => (hmem' t).trans ?_⟩
    rw [hmem, List.mem_cons, or_and_right, or_assoc]

/-- The table has each of the texts once. -/
theorem size_addAll (texts : List String) : (addAll {} texts).size = tableSize texts := by
  obtain ⟨hcounted, hmem⟩ := counted_addAll (p := {}) ⟨.nil, rfl⟩ texts
  have hperm : ((addAll {} texts).entries.map (·.1)).Perm (texts.filter (· ≠ "")).dedup := by
    rw [List.perm_ext_iff_of_nodup hcounted.nodup (List.nodup_dedup _)]
    intro t
    rw [hmem, List.mem_dedup, List.mem_filter]
    simp
  rw [hcounted.size_eq, tableSize, (hperm.map _).sum_nat]

def Clean (p : StringPool) : Prop := ∀ e ∈ p.entries, NulFree e.1

theorem intern_add {p : StringPool} {s : String} (hs : NulFree s) (hf : FitsWord (p.add s).size) :
    ∃ w, intern s p = .ok (w, p.add s) := by
  unfold intern add at *
  by_cases hempty : s = ""
  · exact ⟨0, by simp [hempty]⟩
  · cases hlookup : p.entries.lookup s with
    | some n => exact ⟨n.toUInt32, by simp [hempty]⟩
    | none =>
      simp only [hempty, hlookup, Option.isSome_none, Bool.false_eq_true, or_false, if_false] at hf ⊢
      have hcontains : ¬ s.toList.contains '\x00' = true := by simpa [NulFree] using hs
      rw [if_neg hcontains, if_pos (by omega)]
      exact ⟨_, rfl⟩

theorem clean_of_intern {p q : StringPool} {s : String} {w : UInt32} (hp : p.Clean) (h : intern s p = .ok (w, q)) :
    q.Clean ∧ NulFree s := by
  unfold intern at h
  split at h
  · rename_i hs
    cases h
    exact ⟨hp, by simp [hs, NulFree]⟩
  · split at h
    · rename_i n hn
      cases h
      exact ⟨hp, hp _ (mem_of_lookup hn)⟩
    · split at h
      · cases h
      · rename_i hnul
        have hs : NulFree s := by simpa [NulFree] using hnul
        split at h
        · cases h
          refine ⟨fun e he => ?_, hs⟩
          rcases List.mem_cons.mp he with rfl | he
          · exact hs
          · exact hp e he
        · cases h

end StringPool

/-! ## Writing -/

namespace Encoding

/-- `m` puts the texts into the pool and answers something with `P`, if they hold no zero and the table
stays within the bound; it does not answer if they hold one. -/
structure Stores {α : Type} (bound : Nat) (m : Writer α) (texts : List String) (P : α → Prop) : Prop where
  run : ∀ p, (∀ s ∈ texts, NulFree s) → (p.addAll texts).size ≤ bound → ∃ a, m.run p = .ok (a, p.addAll texts) ∧ P a
  clean : ∀ p a q, p.Clean → m.run p = .ok (a, q) → P a ∧ q.Clean ∧ ∀ s ∈ texts, NulFree s

variable {α β : Type} {bound : Nat} {P : α → Prop} {Q : β → Prop}

theorem stores_pure {a : α} (h : P a) : Stores bound (pure a) [] P where
  run p _ _ := ⟨a, rfl, h⟩
  clean p b q hp hm := by
    cases hm
    exact ⟨h, hp, by simp⟩

theorem Stores.bind {m : Writer α} {f : α → Writer β} {ss ts : List String} (hm : Stores bound m ss P)
    (hf : ∀ a, P a → Stores bound (f a) ts Q) : Stores bound (m >>= f) (ss ++ ts) Q where
  run p hnul hsize := by
    rw [StringPool.addAll_append] at hsize ⊢
    obtain ⟨a, ha, hP⟩ := hm.run p (fun s hs => hnul s (List.mem_append_left _ hs))
      (Nat.le_trans (StringPool.size_le_addAll _ ts) hsize)
    obtain ⟨b, hb, hQ⟩ := (hf a hP).run (p.addAll ss) (fun s hs => hnul s (List.mem_append_right _ hs)) hsize
    refine ⟨b, ?_, hQ⟩
    rw [StateT.run_bind, ha]
    exact hb
  clean p b r hp h := by
    rw [StateT.run_bind] at h
    obtain ⟨⟨a, q⟩, ha, hb⟩ := bind_eq_ok.mp h
    obtain ⟨hP, hq, hss⟩ := hm.clean p a q hp ha
    obtain ⟨hQ, hr, hts⟩ := (hf a hP).clean q b r hq hb
    refine ⟨hQ, hr, fun s hs => ?_⟩
    rcases List.mem_append.mp hs with hs | hs
    · exact hss s hs
    · exact hts s hs

theorem Stores.map {m : Writer α} {ss : List String} (hm : Stores bound m ss P) {f : α → β} (hf : ∀ a, P a → Q (f a)) :
    Stores bound (m >>= fun a => pure (f a)) ss Q := by
  have hall := hm.bind (f := fun a => pure (f a)) fun a ha => stores_pure (hf a ha)
  rwa [List.append_nil] at hall

theorem Stores.imp {m : Writer α} {ss : List String} (hm : Stores bound m ss P) {P' : α → Prop} (h : ∀ a, P a → P' a) :
    Stores bound m ss P' where
  run p hnul hsize := by
    obtain ⟨a, ha, hP⟩ := hm.run p hnul hsize
    exact ⟨a, ha, h a hP⟩
  clean p a q hp hrun := by
    obtain ⟨hP, hq, hss⟩ := hm.clean p a q hp hrun
    exact ⟨h a hP, hq, hss⟩

/-- Writing item after item. -/
theorem Stores.mapM {γ : Type} {f : γ → Writer β} {texts : γ → List String} {R : γ → β → Prop} {l : List γ}
    (hf : ∀ c ∈ l, Stores bound (f c) (texts c) (R c)) :
    Stores bound (l.mapM f) (l.flatMap texts) fun bs => List.Forall₂ R l bs := by
  induction l with
  | nil => exact stores_pure .nil
  | cons c l ih =>
    rw [List.mapM_cons, List.flatMap_cons]
    refine (hf c List.mem_cons_self).bind fun b hb => ?_
    exact (ih fun d hd => hf d (List.mem_cons_of_mem _ hd)).map fun bs hbs => .cons hb hbs

section

variable (hb : FitsWord bound)
include hb

theorem stores_ref (s : String) : Stores bound (ref s) [s] fun _ => True where
  run p hnul hsize := by
    have hs : NulFree s := hnul s List.mem_cons_self
    have hfits : FitsWord (p.add s).size := Nat.lt_of_le_of_lt hsize hb
    obtain ⟨w, hw⟩ := StringPool.intern_add hs hfits
    exact ⟨w, hw, trivial⟩
  clean p w q hp h := by
    obtain ⟨hq, hs⟩ := StringPool.clean_of_intern hp h
    exact ⟨trivial, hq, by simpa using hs⟩

theorem stores_count {n : Nat} (hn : n ≤ bound) : Stores bound (count n) [] fun _ => True := by
  unfold count
  rw [if_pos (by omega)]
  exact stores_pure trivial

theorem stores_address {n : Nat} (hn : n ≤ bound) : Stores bound (address n) [] fun _ => True := by
  unfold address
  rw [if_pos (by omega)]
  exact stores_pure trivial

/-! ## Records -/

theorem stores_line (line : String) : Stores bound (do return [← ref line]) [line] fun ws => ws.length = 1 :=
  (stores_ref hb line).map fun _ _ => rfl

theorem stores_position (p : Position) : Stores bound (positionWords p) [p.filename] fun ws => ws.length = 4 :=
  (stores_ref hb p.filename).map fun _ _ => rfl

theorem stores_import (i : Import) : Stores bound (importWords i) i.texts fun ws => ws.length = 6 :=
  (stores_ref hb i.path).bind fun _ _ => (stores_ref hb i.doc).bind fun _ _ =>
    (stores_position hb i.position).map fun ws hws => by simp [hws]

theorem stores_embed (e : Embed) : Stores bound (embedWords e) e.texts fun ws => ws.length = 5 :=
  (stores_ref hb e.pattern).bind fun _ _ => (stores_position hb e.position).map fun ws hws => by simp [hws]

theorem stores_listWords {γ : Type} {item : γ → Writer (List UInt32)} {texts : γ → List String} {size : Nat} {l : List γ}
    (hl : l.length ≤ bound) (h : ∀ c, Stores bound (item c) (texts c) fun ws => ws.length = size) :
    Stores bound (listWords item l) (l.flatMap texts) fun ws => ws.length = 1 + l.length * size := by
  have hitems : Stores bound (l.mapM item) (l.flatMap texts) fun items =>
      List.Forall₂ (fun _ ws => ws.length = size) l items := Stores.mapM fun c _ => h c
  refine (stores_count hb hl).bind fun n _ => hitems.map fun items hall => ?_
  rw [List.length_cons, length_flatten (fun _ _ h => h) hall, Nat.add_comm]

theorem stores_file (f : FileRecord) (hf : f.words ≤ bound) :
    Stores bound (fileWords f) f.texts fun ws => ws.length = f.words := by
  unfold FileRecord.words at *
  have hplus := stores_listWords hb (l := f.plusBuild) (by omega) (stores_line hb)
  rw [List.flatMap_singleton'] at hplus
  have himports := stores_listWords hb (l := f.imports) (by omega) (stores_import hb)
  have hembeds := stores_listWords hb (l := f.flatEmbeds) (by omega) (stores_embed hb)
  refine (stores_ref hb f.error).bind fun _ _ => (stores_ref hb f.parseError).bind fun _ _ =>
    (stores_ref hb f.synopsis).bind fun _ _ => (stores_ref hb f.name).bind fun _ _ =>
    (stores_ref hb f.pkgName).bind fun _ _ => (stores_ref hb f.importComment).bind fun _ _ =>
    (stores_ref hb f.goBuild).bind fun _ _ => hplus.bind fun plus hp => himports.bind fun imports hi =>
    hembeds.map fun embeds he => ?_
  simp only [List.length_append, List.length_cons, List.length_nil, hp, hi, he]
  omega

/-- Records one behind the other. -/
theorem stores_placed {γ : Type} {record : Nat → γ → Writer (List UInt32)} {texts : γ → List String} {size : γ → Nat}
    (h : ∀ start c, start + 4 * size c ≤ bound → Stores bound (record start c) (texts c) fun ws => ws.length = size c)
    (l : List γ) (start : Nat) (hl : start + 4 * (l.map size).sum ≤ bound) :
    Stores bound (placed record start l) (l.flatMap texts) fun r =>
      r.1.length = l.length ∧ r.2.length = (l.map size).sum := by
  induction l generalizing start with
  | nil => exact stores_pure ⟨rfl, rfl⟩
  | cons c l ih =>
    rw [List.map_cons, List.sum_cons] at hl ⊢
    unfold placed
    refine (stores_address hb (by omega)).bind fun here _ => (h start c (by omega)).bind fun ws hws => ?_
    refine (ih (start + 4 * ws.length) (by omega)).map fun r hr => ?_
    simp [hr.1, hr.2, hws]

theorem stores_package (start : Nat) (p : PackageRecord) (hp : start + 4 * p.words ≤ bound) :
    Stores bound (packageWords start p) p.texts fun ws => ws.length = p.words := by
  unfold PackageRecord.words at *
  have hfiles : Stores bound (placed (fun _ => fileWords) (start + 4 * (5 + p.files.length)) p.files)
      (p.files.flatMap FileRecord.texts) fun r =>
        r.1.length = p.files.length ∧ r.2.length = (p.files.map FileRecord.words).sum :=
    stores_placed hb (fun start f hf => stores_file hb f (by omega)) p.files _ (by omega)
  refine (stores_ref hb p.error).bind fun _ _ => (stores_ref hb p.path).bind fun _ _ =>
    (stores_ref hb p.srcDir).bind fun _ _ => (stores_ref hb p.dir).bind fun _ _ =>
    (stores_count hb (by omega)).bind fun _ _ => hfiles.map fun r hr => ?_
  simp only [List.length_append, List.length_cons, List.length_nil, hr.1, hr.2]

theorem stores_module (ps : List PackageRecord)
    (hps : 20 + 4 * (2 * ps.length + (ps.map PackageRecord.words).sum) ≤ bound) :
    Stores bound (moduleWords ps) (textsOf ps) fun ws =>
      ws.length = 1 + 2 * ps.length + (ps.map PackageRecord.words).sum := by
  have hdirs : Stores bound (ps.mapM fun p => ref p.dir) (ps.map (·.dir)) fun dirs => dirs.length = ps.length := by
    have hall : Stores bound (ps.mapM fun p => ref p.dir) (ps.flatMap fun p => [p.dir]) fun dirs =>
        List.Forall₂ (fun _ _ => True) ps dirs := Stores.mapM fun p _ => stores_ref hb p.dir
    rw [← List.map_eq_flatMap] at hall
    exact hall.imp fun dirs h => h.length_eq.symm
  have hrecords := stores_placed hb (stores_package hb) ps (20 + 4 * (2 * ps.length)) (by omega)
  refine (stores_count hb (by omega)).bind fun _ _ => hdirs.bind fun dirs hd => hrecords.map fun r hr => ?_
  simp only [List.length_append, List.length_cons, hd, hr.1, hr.2]
  omega

end

/-! ## The whole -/

section

variable {ps : List PackageRecord} (hsize : FitsWord (indexSize ps))
include hsize

theorem nulFree_of_indexBytes {bytes : List UInt8} (h : indexBytes ps = .ok bytes) : ∀ s ∈ textsOf ps, NulFree s := by
  have hmodule := stores_module hsize ps (by unfold indexSize; omega)
  obtain ⟨⟨words, pool⟩, hwords, -⟩ := bind_eq_ok.mp h
  exact (hmodule.clean {} words pool (by simp [StringPool.Clean]) hwords).2.2

/-- Packages that fit and have no zero in a text are written, as many bytes as are counted. -/
theorem indexBytes_of_nulFree (hnul : ∀ s ∈ textsOf ps, NulFree s) :
    ∃ bytes, indexBytes ps = .ok bytes ∧ bytes.length = indexSize ps := by
  have hmodule := stores_module hsize ps (by unfold indexSize; omega)
  have htable : (StringPool.addAll {} (textsOf ps)).size = tableSize (textsOf ps) := StringPool.size_addAll _
  obtain ⟨words, hwords, hlength⟩ := hmodule.run {} hnul (by rw [htable, indexSize]; omega)
  have hpool : (StringPool.addAll {} (textsOf ps)).bytes.length = tableSize (textsOf ps) := by
    obtain ⟨hsound, -, -⟩ := ensures_module ps _ _ _ StringPool.sound_empty hwords
    rw [← hsound.size_eq, htable]
  have hfits : FitsWord (16 + 4 * words.length) := by
    unfold indexSize at hsize
    omega
  have haddress : (address (16 + 4 * words.length)).run (StringPool.addAll {} (textsOf ps)) =
      .ok ((16 + 4 * words.length).toUInt32, StringPool.addAll {} (textsOf ps)) := by
    unfold address
    rw [if_pos hfits]
    rfl
  have htotal (table : UInt32) : (indexVersion ++ bytesOfWords (table :: words) ++
      (StringPool.addAll {} (textsOf ps)).bytes).length = indexSize ps := by
    have hversion : indexVersion.length = 12 := rfl
    simp only [List.length_append, length_bytesOfWords, List.length_cons, hpool, hlength, hversion, indexSize]
    omega
  refine ⟨_, bind_eq_ok.mpr ⟨_, hwords, bind_eq_ok.mpr ⟨_, haddress, ?_⟩⟩, htotal (16 + 4 * words.length).toUInt32⟩
  simp only [htotal, if_pos hsize]
  rfl

end

end Encoding

end PackageIndex
