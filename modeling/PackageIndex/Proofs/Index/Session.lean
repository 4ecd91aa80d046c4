/-
  PackageIndex.Proofs.Index.Session — questions to an index, in any order.

  - `Answers x a m r`: with whatever is remembered of `x` and its file at `a`, if it is true, the
    session `m` answers `r`, remembers only what is true and reads only in front of the
    string table.
  - `answers_ask`, `answers_askPackage`: so no question hangs on those before it, no sum is
    too large for a word, and nothing fails but for the form of the file.
  - `Inquiry.inv_of_reached`: what is remembered is true in every state that questions lead to.
-/

import PackageIndex.Index.Session
import PackageIndex.Proofs.Index.Holds
import PackageIndex.Proofs.Index.Located
import PackageIndex.Proofs.Index.Opening
import PackageIndex.Proofs.Lookup

namespace PackageIndex

open Fallible

/-! ## The record area -/

/-- The record area ends inside the file, at an address that is a word. -/
structure OpenIndex.Bounded (x : OpenIndex) : Prop where
  fits : FitsWord x.tableOffset
  inside : x.tableOffset ≤ x.data.size

theorem OpenIndex.bounded_of_ofBytes {moduleDir : String} {data : Array UInt8} {x : OpenIndex}
    (h : ofBytes moduleDir data = .ok x) : x.Bounded := by
  obtain ⟨table, count, packages, hh, -, rfl⟩ := ofBytes_eq_ok.mp h
  exact ⟨UInt32.toNat_lt table, Nat.le_of_lt hh.lt_size⟩

/-! ## Sessions -/

/-- What is remembered is true, of the file at `a` too, and nothing was read behind the record area. -/
structure Memory.Sound (m : Memory) (x : OpenIndex) (a : Nat) : Prop where
  strings : ∀ e ∈ m.strings, x.strings.get e.1 = .ok e.2
  located : m.located.SoundFor x a
  reads : ∀ r ∈ m.reads, r.1 + 4 * r.2 ≤ x.tableOffset

/-- A session that answers `r`, whatever true things are remembered. -/
def Answers {α : Type} (x : OpenIndex) (a : Nat) (m : Session α) (r : Field α) : Prop :=
  Keeps (fun t : Memory => t.Sound x a) m (r.mapError .format)

theorem run_get (t : Memory) : (get : Session Memory).run.run t = (.ok t, t) := rfl

section

variable {α β : Type} {x : OpenIndex} {a : Nat}

theorem answers_ofField (r : Field α) : Answers x a (ofField r) r := keeps_liftM _ _

theorem answers_pure (v : α) : Answers x a (pure v) (pure v) := answers_ofField (.ok v)

theorem answers_throw (e : FormatError) : Answers x a (throw (.format e) : Session α) (throw e) :=
  answers_ofField (.error e)

theorem Answers.bind {m : Session α} {r : Field α} {f : α → Session β} {g : α → Field β} (hm : Answers x a m r)
    (hf : ∀ v, r = .ok v → Answers x a (f v) (g v)) : Answers x a (m >>= f) (r >>= g) := by
  unfold Answers
  rw [mapError_bind]
  exact Keeps.bind hm fun v hv => hf v (mapError_eq_ok.mp hv)

/-- A step that is sure of its answer may have no counterpart. -/
theorem Answers.step {m : Session α} {v : α} {f : α → Session β} {r : Field β} (hm : Answers x a m (.ok v))
    (hf : Answers x a (f v) r) : Answers x a (m >>= f) r :=
  Answers.bind (g := fun _ => r) hm fun _ h => Except.ok.inj h ▸ hf

theorem Answers.mapM {f : α → Session β} {g : α → Field β} (h : ∀ v, Answers x a (f v) (g v)) (l : List α) :
    Answers x a (l.mapM f) (l.mapM g) := by
  induction l with
  | nil => exact answers_pure []
  | cons v l ih =>
    rw [List.mapM_cons, List.mapM_cons]
    exact (h v).bind fun b _ => ih.bind fun bs _ => answers_pure (b :: bs)

theorem Answers.ite {c : Prop} [Decidable c] {m m' : Session α} {r r' : Field α} (h : c → Answers x a m r)
    (h' : ¬ c → Answers x a m' r') : Answers x a (if c then m else m') (if c then r else r') := by
  by_cases hc : c
  · rw [if_pos hc, if_pos hc]
    exact h hc
  · rw [if_neg hc, if_neg hc]
    exact h' hc

/-! ## Words and strings -/

theorem answers_readWords (hx : x.Bounded) (b n : Nat) : Answers x a (x.readWords b n) (x.words b n) := by
  intro t ht
  by_cases hle : b + 4 * n ≤ x.tableOffset
  · obtain ⟨ws, hws⟩ := exists_wordsAt? (Nat.le_trans hle hx.inside)
    have hrun : (x.readWords b n).run.run t = (.ok ws, { t with reads := (b, n) :: t.reads }) := by
      rw [OpenIndex.readWords, if_neg (Nat.not_lt.mpr hle), hws]
      rfl
    rw [hrun, OpenIndex.words, if_pos hle, hws]
    refine ⟨rfl, ht.strings, ht.located, ?_⟩
    intro r hr
    rcases List.mem_cons.mp hr with rfl | hr
    · exact hle
    · exact ht.reads r hr
  · have hrun : (x.readWords b n).run.run t = (.error (.format (.readPastEnd n b x.tableOffset)), t) := by
      rw [OpenIndex.readWords, if_pos (Nat.lt_of_not_le hle)]
      rfl
    rw [hrun, OpenIndex.words, if_neg hle]
    exact ⟨rfl, ht⟩

theorem answers_readWord (hx : x.Bounded) (b : Nat) : Answers x a (x.readWord b) (x.word b) := by
  refine (answers_readWords hx b 1).bind ?_
  intro ws hws
  cases ws with
  | nil => exact absurd (OpenIndex.holds_of_words hws).2 (by simp)
  | cons w ws => exact answers_pure w

theorem answers_readBool (hx : x.Bounded) (b : Nat) : Answers x a (x.readBool b) (x.bool b) := by
  refine (answers_readWord hx b).bind ?_
  intro w _
  exact Answers.ite (fun _ => answers_pure false) fun _ =>
    Answers.ite (fun _ => answers_pure true) fun _ => answers_throw _

theorem answers_recallString (w : UInt32) : Answers x a (x.recallString w) (x.strings.get w) := by
  intro t ht
  by_cases h0 : w = 0
  · rw [OpenIndex.recallString, if_pos h0, StringTable.get, if_pos h0]
    exact ⟨rfl, ht⟩
  · rw [OpenIndex.recallString, if_neg h0, run_bind]
    cases hl : t.strings.lookup w with
    | some s =>
      have hs := ht.strings _ (mem_of_lookup hl)
      simp only [run_get, hl]
      rw [hs]
      exact ⟨rfl, ht⟩
    | none =>
      simp only [run_get, hl]
      rw [run_bind, ofField, run_liftM]
      cases hs : x.strings.get w with
      | error e => exact ⟨rfl, ht⟩
      | ok s =>
        refine ⟨rfl, ?_, ht.located, ht.reads⟩
        intro e he
        rcases List.mem_cons.mp he with rfl | he
        · exact hs
        · exact ht.strings e he

theorem answers_recallImports (ws : List UInt32) : Answers x a (x.recallImports ws) (x.importsOfWords ws) := by
  fun_induction OpenIndex.importsOfWords x ws with
  | case1 path doc filename offset line column rest ih =>
    rw [OpenIndex.recallImports]
    refine (answers_recallString path).bind fun path _ => (answers_recallString doc).bind fun doc _ => ?_
    simp only [OpenIndex.recallPosition, bind_assoc, pure_bind]
    exact (answers_recallString filename).bind fun filename _ => ih.bind fun is _ => answers_pure _
  | case2 ws h =>
    rw [OpenIndex.recallImports.eq_def]
    split
    · exact absurd rfl (h _ _ _ _ _ _ _)
    · exact answers_pure []

theorem answers_recallEmbeds (ws : List UInt32) : Answers x a (x.recallEmbeds ws) (x.embedsOfWords ws) := by
  fun_induction OpenIndex.embedsOfWords x ws with
  | case1 pattern filename offset line column rest ih =>
    rw [OpenIndex.recallEmbeds]
    refine (answers_recallString pattern).bind fun pattern _ => ?_
    simp only [OpenIndex.recallPosition, bind_assoc, pure_bind]
    exact (answers_recallString filename).bind fun filename _ => ih.bind fun es _ => answers_pure _
  | case2 ws h =>
    rw [OpenIndex.recallEmbeds.eq_def]
    split
    · exact absurd rfl (h _ _ _ _ _ _)
    · exact answers_pure []

/-! ## Counted lists -/

/-- Where a word was read, the address behind it is a word. -/
theorem answers_afterCount (hx : x.Bounded) {b : Nat} {n : UInt32} (h : x.word b = .ok n) :
    Answers x a (afterCount b) (.ok (b + 4)) := by
  have hle := OpenIndex.word_le h
  have hfits := hx.fits
  rw [afterCount, if_pos (by omega)]
  exact answers_pure _

theorem answers_readList (hx : x.Bounded) (b size : Nat) : Answers x a (x.readList b size) (x.list b size) := by
  refine (answers_readWord hx b).bind fun n hn => (answers_afterCount hx hn).step ?_
  exact (answers_ofField _).bind fun k _ => answers_readWords hx (b + 4) k

theorem answers_skipList (hx : x.Bounded) (b size : Nat) : Answers x a (x.skipList b size) (x.afterList b size) := by
  refine (answers_readWord hx b).bind fun n _ => (answers_ofField _).bind fun k _ => ?_
  have hfits := hx.fits
  by_cases hle : b + 4 * (1 + k) ≤ x.tableOffset
  · rw [if_pos ⟨by omega, hle⟩, if_pos hle]
    exact answers_pure _
  · rw [if_neg (by omega), if_neg hle]
    exact answers_throw _

theorem itemWords_one (n : UInt32) : OpenIndex.itemWords n.toNat 1 = .ok n.toNat := by
  have hn := UInt32.toNat_lt n
  exact OpenIndex.itemWords_eq_ok.mpr ⟨by omega, by omega⟩

theorem answers_finding {known : Located → Option Nat} {learn : Nat → Located → Located} {find : Session Nat}
    {r : Field Nat} (hfind : Answers x a find r) (hknown : ∀ l b, l.SoundFor x a → known l = some b → r = .ok b)
    (hlearn : ∀ l b, l.SoundFor x a → r = .ok b → (learn b l).SoundFor x a) :
    Answers x a (finding known learn find) r := by
  intro t ht
  rw [finding, run_bind]
  cases hk : known t.located with
  | some b =>
    simp only [run_get, hk]
    rw [hknown _ b ht.located hk]
    exact ⟨rfl, ht⟩
  | none =>
    simp only [run_get, hk]
    obtain ⟨h1, h2⟩ := hfind t ht
    rw [run_bind]
    rcases hr : find.run.run t with ⟨answer, t'⟩
    rw [hr] at h1 h2
    cases r with
    | error e =>
      cases h1
      exact ⟨rfl, h2⟩
    | ok b =>
      cases h1
      exact ⟨rfl, h2.strings, hlearn _ b h2.located rfl, h2.reads⟩

end

/-! ## Files -/

namespace FileEntry

variable {e : FileEntry}

/-- The fixed part of the file is in the record area, and what is remembered of the file is true. -/
structure Standing (e : FileEntry) : Prop where
  bounded : e.index.Bounded
  fixed_le : e.offset + 44 ≤ e.index.tableOffset
  sound : e.Sound

/-- A field of the fixed part has an address. -/
theorem answers_fieldAddress (he : e.Standing) {relative : Nat} (h : relative ≤ 40) :
    Answers e.index e.offset (e.fieldAddress relative) (.ok (e.offset + relative)) := by
  have hfits := he.bounded.fits
  have hle := he.fixed_le
  rw [fieldAddress, if_pos (by omega)]
  exact answers_pure _

/-- A file that is not in the record area can have a field without one. -/
example (x : OpenIndex) : ((ask { index := x, offset := 4294967287 } .goBuild).run.run {}).1 =
    .error (.fieldAddress 36 4294967287) := rfl

theorem answers_askString (he : e.Standing) {relative : Nat} (h : relative ≤ 40) :
    Answers e.index e.offset (e.askString relative) (e.index.string (e.offset + relative)) := by
  refine (answers_fieldAddress he h).step ?_
  exact (answers_readWord he.bounded _).bind fun w _ => answers_recallString w

theorem answers_askBool (he : e.Standing) {relative : Nat} (h : relative ≤ 40) :
    Answers e.index e.offset (e.askBool relative) (e.index.bool (e.offset + relative)) :=
  (answers_fieldAddress he h).step (answers_readBool he.bounded _)

theorem answers_askWord (he : e.Standing) {relative : Nat} (h : relative ≤ 40) :
    Answers e.index e.offset (e.askWord relative) (e.index.word (e.offset + relative)) :=
  (answers_fieldAddress he h).step (answers_readWord he.bounded _)

theorem answers_askLines (he : e.Standing) : Answers e.index e.offset e.askLines e.plusBuild := by
  refine (answers_fieldAddress he (Nat.le_refl 40)).step ?_
  simp only [plusBuild, OpenIndex.list, bind_assoc]
  refine (answers_readWord he.bounded _).bind fun n hn => ?_
  rw [itemWords_one]
  refine (answers_afterCount he.bounded hn).step ?_
  exact (answers_readWords he.bounded _ _).bind fun ws _ => Answers.mapM answers_recallString ws

theorem answers_findImports (he : e.Standing) :
    Answers e.index e.offset e.findImports (e.index.importsStart e.offset) := by
  refine answers_finding ?_ (fun l => fun b hl hb => hl.imports b hb) ?_
  · exact (answers_fieldAddress he (Nat.le_refl 40)).step (answers_skipList he.bounded _ 1)
  · intro l b hl hb
    exact { imports := fun c hc => by cases hc; exact hb, embeds := hl.embeds }

theorem answers_findEmbeds (he : e.Standing) :
    Answers e.index e.offset e.findEmbeds (e.index.embedsStart e.offset) := by
  refine answers_finding ?_ (fun l => fun b hl hb => hl.embeds b hb) ?_
  · exact (answers_findImports he).bind fun b _ => answers_skipList he.bounded b 6
  · intro l b hl hb
    exact { imports := hl.imports, embeds := fun c hc => by cases hc; exact hb }

theorem answers_askImports (he : e.Standing) : Answers e.index e.offset e.askImports e.imports := by
  rw [imports_of_sound he.sound]
  refine (answers_findImports he).bind fun b _ => ?_
  exact (answers_readList he.bounded b 6).bind fun ws _ => answers_recallImports ws

theorem answers_askEmbeds (he : e.Standing) : Answers e.index e.offset e.askEmbeds e.embeds := by
  rw [embeds_of_sound he.sound]
  refine (answers_findEmbeds he).bind fun b _ => ?_
  exact (answers_readList he.bounded b 5).bind fun ws _ => answers_recallEmbeds ws

theorem answers_askRecord (he : e.Standing) : Answers e.index e.offset e.askRecord e.view.read :=
  (answers_askString he (by omega)).bind fun _ _ => (answers_askString he (by omega)).bind fun _ _ =>
  (answers_askString he (by omega)).bind fun _ _ => (answers_askBool he (by omega)).bind fun _ _ =>
  (answers_askBool he (by omega)).bind fun _ _ => (answers_askString he (by omega)).bind fun _ _ =>
  (answers_askLines he).bind fun _ _ => (answers_askString he (by omega)).bind fun _ _ =>
  (answers_askWord he (by omega)).bind fun _ _ => (answers_askImports he).bind fun _ _ =>
  (answers_askEmbeds he).bind fun _ _ => (answers_askString he (by omega)).bind fun _ _ =>
  (answers_askString he (by omega)).bind fun _ _ => answers_pure _

/-- A question is answered as if it were the only one. -/
theorem answers_ask (he : e.Standing) {α : Type} (q : Question α) :
    Answers e.index e.offset (e.ask q) (e.view.answer q) := by
  cases q with
  | error => exact answers_askString he (by omega)
  | parseError => exact answers_askString he (by omega)
  | synopsis => exact answers_askString he (by omega)
  | name => exact answers_askString he (by omega)
  | pkgName => exact answers_askString he (by omega)
  | ignoreFile => exact answers_askBool he (by omega)
  | binaryOnly => exact answers_askBool he (by omega)
  | importComment => exact answers_askString he (by omega)
  | importCommentLine => exact answers_askWord he (by omega)
  | goBuild => exact answers_askString he (by omega)
  | plusBuild => exact answers_askLines he
  | imports => exact answers_askImports he
  | embeds => exact answers_askEmbeds he
  | record => exact answers_askRecord he

end FileEntry

/-! ## Packages -/

section

variable {x : OpenIndex} {a : Nat}

theorem answers_askPackageAt (hx : x.Bounded) (b : Nat) : Answers x a (x.askPackageAt b) (x.packageAt b) := by
  refine (answers_readWords hx b 5).bind ?_
  intro ws hws
  obtain ⟨⟨hle, -⟩, hlen⟩ := OpenIndex.holds_of_words hws
  match ws, hlen with
  | [error, path, srcDir, dir, n], hlen =>
    -- the five words were read, so the address behind them is a word
    have hsum : Answers x a (wordSum b 20) (.ok (b + 20)) := by
      have hfits := hx.fits
      rw [wordSum, if_pos (by omega)]
      exact answers_pure _
    refine hsum.step ((answers_readWords hx _ _).bind fun offsets _ => ?_)
    have hfiles (offset : UInt32) : Answers x a (ofField (x.fileAt offset.toNat)) (x.fileAt offset.toNat) :=
      answers_ofField _
    refine (Answers.mapM hfiles offsets).bind fun files _ => ?_
    exact (answers_recallString error).bind fun _ _ => (answers_recallString path).bind fun _ _ =>
      (answers_recallString srcDir).bind fun _ _ => (answers_recallString dir).bind fun _ _ => answers_pure _

theorem answers_askPackage (hx : x.Bounded) (dir : String) : Answers x a (x.askPackage dir) (x.package? dir) := by
  unfold OpenIndex.askPackage OpenIndex.package?
  cases x.address? dir with
  | none => exact answers_pure none
  | some b => exact (answers_askPackageAt hx b).bind fun p _ => answers_pure (some p)

/-- Files come from a package as `fileAt` leaves them. -/
theorem standing_of_package? (hx : x.Bounded) {dir : String} {p : PackageEntry} (h : x.package? dir = .ok (some p))
    {f : FileEntry} (hf : f ∈ p.files) : f.index = x ∧ f.Standing := by
  unfold OpenIndex.package? at h
  cases hb : x.address? dir with
  | none => simp [hb] at h; cases h
  | some b =>
    rw [hb] at h
    obtain ⟨q, hq, e⟩ := map_eq_ok.mp h
    cases e
    obtain ⟨_, _, _, _, _, offsets, _, _, hfiles, _⟩ := OpenIndex.packageAt_eq_ok.mp hq
    obtain ⟨offset, _, hfile⟩ := exists_of_forall₂ hfiles hf
    obtain ⟨hle, rfl⟩ := OpenIndex.fileAt_eq_ok.mp hfile
    exact ⟨rfl, hx, hle, FileEntry.sound_new x offset.toNat⟩

end

/-! ## Any number of questions -/

namespace Inquiry

variable {x : OpenIndex} {s : Inquiry}

/-- What is remembered is true, and the files are of `x`. -/
structure Inv (x : OpenIndex) (s : Inquiry) : Prop where
  strings : ∀ e ∈ s.strings, x.strings.get e.1 = .ok e.2
  reads : ∀ r ∈ s.reads, r.1 + 4 * r.2 ≤ x.tableOffset
  files : ∀ f ∈ s.files, f.index = x ∧ f.Standing

theorem Inv.sound (h : s.Inv x) {l : Located} {a : Nat} (hl : l.SoundFor x a) : (s.memory l).Sound x a :=
  ⟨h.strings, hl, h.reads⟩

theorem Inv.sound_file (h : s.Inv x) {f : FileEntry} (hf : f ∈ s.files) :
    (s.memory f.located).Sound f.index f.offset := by
  obtain ⟨rfl, hf⟩ := h.files f hf
  exact h.sound hf.sound

theorem inv_ofMemory {t : Memory} {a : Nat} (ht : t.Sound x a) {files : List FileEntry}
    (hfiles : ∀ f ∈ files, f.index = x ∧ f.Standing) : (ofMemory t files).Inv x :=
  ⟨ht.strings, ht.reads, hfiles⟩

theorem inv_start (x : OpenIndex) : (start x).Inv x := by
  have hnone : Memory.Sound {} x 0 := by
    refine ⟨?_, Located.sound_empty x 0, ?_⟩ <;> simp
  exact inv_ofMemory (Answers.mapM answers_recallString _ {} hnone).2 (by simp)

theorem mem_found {r : Except Fault (Option PackageEntry)} {f : FileEntry} (h : f ∈ found r) :
    ∃ p, r = .ok (some p) ∧ f ∈ p.files := by
  unfold found at h
  split at h
  · exact ⟨_, rfl, h⟩
  · cases h

theorem package_answer (hx : x.Bounded) (h : s.Inv x) (dir : String) :
    (s.package x dir).1 = (x.package? dir).mapError .format :=
  (answers_askPackage hx dir _ (h.sound (Located.sound_empty x 0))).1

theorem inv_package (hx : x.Bounded) (h : s.Inv x) (dir : String) : (s.package x dir).2.Inv x := by
  have hanswer := package_answer hx h dir
  refine inv_ofMemory (answers_askPackage hx dir _ (h.sound (Located.sound_empty x 0))).2 ?_
  intro f hf
  rcases List.mem_append.mp hf with hf | hf
  · exact h.files f hf
  · obtain ⟨p, hp, hf⟩ := mem_found hf
    exact standing_of_package? hx (mapError_eq_ok.mp (hanswer.symm.trans hp)) hf

theorem ask_answer (h : s.Inv x) (i : Fin s.files.length) {α : Type} (q : Question α) :
    (s.ask i q).1 = ((s.files.get i).view.answer q).mapError .format := by
  have hi : s.files.get i ∈ s.files := List.get_mem s.files i
  exact (FileEntry.answers_ask (h.files _ hi).2 q _ (h.sound_file hi)).1

theorem inv_ask (h : s.Inv x) (i : Fin s.files.length) {α : Type} (q : Question α) : (s.ask i q).2.Inv x := by
  have hi : s.files.get i ∈ s.files := List.get_mem s.files i
  obtain ⟨hindex, hf⟩ := h.files _ hi
  have ht := (FileEntry.answers_ask hf q _ (h.sound_file hi)).2
  refine inv_ofMemory (hindex ▸ ht) ?_
  intro f hmem
  rcases List.mem_or_eq_of_mem_set hmem with hmem | rfl
  · exact h.files f hmem
  · exact ⟨hindex, hf.bounded, hf.fixed_le, ht.located⟩

theorem inv_of_reached (hx : x.Bounded) (h : Reached x s) : s.Inv x := by
  induction h with
  | start => exact inv_start x
  | package dir _ ih => exact inv_package hx ih dir
  | ask i q _ ih => exact inv_ask ih i q

/-- In every state that questions lead to, words were read from the record area only, and a question fails only for a
fault of the format that is found there without memory too: all sums are words, and all words are there. -/
theorem safe_of_reached {moduleDir : String} {data : Array UInt8} (hx : OpenIndex.ofBytes moduleDir data = .ok x)
    (hs : Reached x s) :
    (∀ r ∈ s.reads, r.1 + 4 * r.2 ≤ x.tableOffset) ∧
    (∀ dir fault, (s.package x dir).1 = .error fault → ∃ e, fault = .format e ∧ x.package? dir = .error e) ∧
    ∀ (i : Fin s.files.length) (α : Type) (q : Question α) fault, (s.ask i q).1 = .error fault →
      ∃ e, fault = .format e ∧ (s.files.get i).view.answer q = .error e := by
  have hbounded := OpenIndex.bounded_of_ofBytes hx
  have hinv := inv_of_reached hbounded hs
  refine ⟨hinv.reads, ?_, ?_⟩
  · intro dir fault h
    rw [package_answer hbounded hinv] at h
    exact mapError_eq_error.mp h
  · intro i α q fault h
    rw [ask_answer hinv] at h
    exact mapError_eq_error.mp h

/-- An index of which a file has a bad string, a bad boolean and too many embeds. -/
def sampleTorn : Array UInt8 :=
  (indexVersion ++ bytesOfWords ([128, 1, 0, 28, 0, 0, 0, 0, 1, 52] ++
    [0, 0, 99, 1, 0, 7, 1, 0, 3, 0, 0, 1, 3, 0, 1, 5, 6, 7, 4294967295]) ++ [0, 97, 0, 98, 0]).toArray

def sampleOpen : OpenIndex := ⟨"/m", sampleTorn, 128, ⟨sampleTorn.extract 128⟩, [("", 28)]⟩

theorem ofBytes_sampleTorn : OpenIndex.ofBytes "/m" sampleTorn = .ok sampleOpen := by decide +kernel

def sampleFound : Inquiry := ((start sampleOpen).package sampleOpen "").2

theorem sampleFound_pos : 0 < sampleFound.files.length := by decide +kernel

theorem sampleFound_safe : Reached sampleOpen (sampleFound.ask ⟨0, sampleFound_pos⟩ .embeds).2 ∧
    (sampleFound.ask ⟨0, sampleFound_pos⟩ .embeds).1 = .error (.format (.listLength 4294967295)) ∧
    ∀ r ∈ (sampleFound.ask ⟨0, sampleFound_pos⟩ .embeds).2.reads, r.1 + 4 * r.2 ≤ 128 := by
  have hs : Reached sampleOpen (sampleFound.ask ⟨0, sampleFound_pos⟩ .embeds).2 := .ask _ .embeds (.package "" .start)
  exact ⟨hs, by decide +kernel, (safe_of_reached ofBytes_sampleTorn hs).1⟩

end Inquiry

end PackageIndex
