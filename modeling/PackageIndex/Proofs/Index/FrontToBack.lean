/-
  PackageIndex.Proofs.Index.FrontToBack — records of files, read word by word.

  A file's record has ten fixed words and three counted lists. Entries compute the addresses of
  its fields; `taking` goes through the words from the front instead, each where the one
  before it ended, and skips what it is not asked for.
  - `takeList_eq_ok`: a list is read word by word as it is read at once.
  - `answer_eq_ok`: both ways every question has the same answer, if it has one.
-/

import PackageIndex.Proofs.Index.Session
import PackageIndex.Proofs.Record.Reading

namespace PackageIndex

open Fallible

/-! ## From the front -/

/-- Reading on from the address where the last reading ended. -/
abbrev Taking (α : Type) := StateT Nat Field α

def takeTimes {α : Type} (item : Taking α) : Nat → Taking (List α)
  | 0 => return []
  | n + 1 => do
    let v ← item
    return v :: (← takeTimes item n)

namespace OpenIndex

variable (x : OpenIndex)

def takeWord : Taking UInt32 := fun a => do return (← x.word a, a + 4)

def takeString : Taking String := do x.strings.get (← x.takeWord)

def takeBool : Taking Bool := do
  let a ← get
  let w ← x.takeWord
  if w = 0 then return false
  else if w = 1 then return true
  else throw (.notBool w.toNat a)

def takeList {α : Type} (item : Taking α) : Taking (List α) := do takeTimes item (← x.takeWord).toNat

def takePosition : Taking Position := do
  let filename ← x.takeString
  let offset ← x.takeWord
  let line ← x.takeWord
  let column ← x.takeWord
  return { filename, offset, line, column }

def takeImport : Taking Import := do
  let path ← x.takeString
  let doc ← x.takeString
  let position ← x.takePosition
  return { path, doc, position }

def takeEmbed : Taking Embed := do
  let pattern ← x.takeString
  let position ← x.takePosition
  return { pattern, position }

def takeFile : Taking FileRecord := do
  let error ← x.takeString
  let parseError ← x.takeString
  let synopsis ← x.takeString
  let name ← x.takeString
  let pkgName ← x.takeString
  let ignoreFile ← x.takeBool
  let binaryOnly ← x.takeBool
  let importComment ← x.takeString
  let importCommentLine ← x.takeWord
  let goBuild ← x.takeString
  let plusBuild ← x.takeList x.takeString
  let imports ← x.takeList x.takeImport
  let embeds ← x.takeList x.takeEmbed
  return { error, parseError, synopsis, name, pkgName, ignoreFile, binaryOnly, importComment, importCommentLine,
           goBuild, plusBuild, imports, embeds := embedsByPattern embeds }

def passWords (n : Nat) : Taking Unit := do let _ ← takeTimes x.takeWord n

def passList (size : Nat) : Taking Unit := do x.passWords ((← x.takeWord).toNat * size)

/-- Passes what stands in front of the answer, and takes it. -/
def taking : {α : Type} → Question α → Taking α
  | _, .error => x.takeString
  | _, .parseError => do x.passWords 1; x.takeString
  | _, .synopsis => do x.passWords 2; x.takeString
  | _, .name => do x.passWords 3; x.takeString
  | _, .pkgName => do x.passWords 4; x.takeString
  | _, .ignoreFile => do x.passWords 5; x.takeBool
  | _, .binaryOnly => do x.passWords 6; x.takeBool
  | _, .importComment => do x.passWords 7; x.takeString
  | _, .importCommentLine => do x.passWords 8; x.takeWord
  | _, .goBuild => do x.passWords 9; x.takeString
  | _, .plusBuild => do x.passWords 10; x.takeList x.takeString
  | _, .imports => do x.passWords 10; x.passList 1; x.takeList x.takeImport
  | _, .embeds => do x.passWords 10; x.passList 1; x.passList 6; x.takeList x.takeEmbed
  | _, .record => x.takeFile

end OpenIndex

/-! ## Words and strings -/

section

variable {α β : Type} {x : OpenIndex} {a b c : Nat}

theorem take_bind_eq_ok {t : Taking α} {f : α → Taking β} {v : β} :
    (t >>= f).run a = .ok (v, c) ↔ ∃ u b, t.run a = .ok (u, b) ∧ (f u).run b = .ok (v, c) := by
  rw [StateT.run_bind, bind_eq_ok]
  exact ⟨fun ⟨p, h⟩ => ⟨p.1, p.2, h⟩, fun ⟨u, b, h⟩ => ⟨(u, b), h⟩⟩

/-- From `a` on `t` answers `r` and ends at `b`, inside the record area. -/
structure TakesAt (x : OpenIndex) (t : Taking α) (a : Nat) (r : Field α) (b : Nat) : Prop where
  run : t.run a = r.map (·, b)
  inside : ∀ v, r = .ok v → b ≤ x.tableOffset

theorem takesAt_pure (ha : a ≤ x.tableOffset) (v : α) : TakesAt x (pure v) a (pure v) a := ⟨rfl, fun _ _ => ha⟩

theorem takesAt_throw (e : FormatError) : TakesAt x (throw e : Taking α) a (throw e) b := ⟨rfl, fun _ h => nomatch h⟩

theorem TakesAt.bind {t : Taking α} {r : Field α} {f : α → Taking β} {g : α → Field β} (ht : TakesAt x t a r b)
    (hf : ∀ v, b ≤ x.tableOffset → TakesAt x (f v) b (g v) c) : TakesAt x (t >>= f) a (r >>= g) c := by
  cases r with
  | error e =>
    refine ⟨?_, fun _ h => nomatch h⟩
    rw [StateT.run_bind, ht.run]
    rfl
  | ok v =>
    have hv := hf v (ht.inside v rfl)
    refine ⟨?_, hv.inside⟩
    rw [StateT.run_bind, ht.run]
    exact hv.run

/-- Looking where the reading stands does not move it. -/
theorem takesAt_get {f : Nat → Taking α} {r : Field α} (h : TakesAt x (f a) a r b) : TakesAt x (get >>= f) a r b :=
  ⟨h.run, h.inside⟩

theorem TakesAt.ite {p : Prop} [Decidable p] {t t' : Taking α} {r r' : Field α} (h : TakesAt x t a r b)
    (h' : TakesAt x t' a r' b) : TakesAt x (if p then t else t') a (if p then r else r') b := by
  by_cases hp : p
  · rw [if_pos hp, if_pos hp]
    exact h
  · rw [if_neg hp, if_neg hp]
    exact h'

theorem TakesAt.eq_ok_iff {t : Taking α} {r : Field α} (ht : TakesAt x t a r b) {v : α} :
    t.run a = .ok (v, c) ↔ r = .ok v ∧ c = b := by
  rw [ht.run, map_eq_ok]
  constructor
  · rintro ⟨u, hu, e⟩
    cases e
    exact ⟨hu, rfl⟩
  · rintro ⟨hv, rfl⟩
    exact ⟨v, hv, rfl⟩

theorem exists_of_takesAt {t : Taking α} {r : Field α} (ht : TakesAt x t a r c) {v : α} :
    (∃ b, t.run a = .ok (v, b)) ↔ r = .ok v := by
  simp only [ht.eq_ok_iff]
  exact ⟨fun ⟨_, h, _⟩ => h, fun h => ⟨c, h, rfl⟩⟩

theorem TakesAt.exists_bind {t : Taking α} {r : Field α} (ht : TakesAt x t a r c) {f : α → Taking β} {v : β} :
    (∃ b, (t >>= f).run a = .ok (v, b)) ↔ ∃ u, r = .ok u ∧ ∃ b, (f u).run c = .ok (v, b) := by
  simp only [take_bind_eq_ok, ht.eq_ok_iff]
  constructor
  · rintro ⟨b, u, _, ⟨hu, rfl⟩, h⟩
    exact ⟨u, hu, b, h⟩
  · rintro ⟨u, hu, b, h⟩
    exact ⟨b, u, c, ⟨hu, rfl⟩, h⟩

theorem takesAt_word (x : OpenIndex) (a : Nat) : TakesAt x x.takeWord a (x.word a) (a + 4) := by
  constructor
  · show (x.word a >>= fun w => _) = _
    cases x.word a <;> rfl
  · intro w hw
    exact OpenIndex.word_le hw

theorem takesAt_string (x : OpenIndex) (a : Nat) : TakesAt x x.takeString a (x.string a) (a + 4) := by
  refine (takesAt_word x a).bind fun w hle => ⟨?_, fun _ _ => hle⟩
  show (x.strings.get w >>= fun s => _) = _
  cases x.strings.get w <;> rfl

theorem takesAt_bool (x : OpenIndex) (a : Nat) : TakesAt x x.takeBool a (x.bool a) (a + 4) :=
  takesAt_get <| (takesAt_word x a).bind fun _ hle =>
    (takesAt_pure hle false).ite ((takesAt_pure hle true).ite (takesAt_throw _))

/-! ## Items of lists -/

/-- Taking an item is reading its `size` words, and a list of words is decoded item by item. -/
structure TakesItem (x : OpenIndex) (item : Taking α) (size : Nat) (decode : List UInt32 → Field (List α)) : Prop where
  nil : decode [] = .ok []
  cons : ∀ a, ∃ r : Field α, TakesAt x item a r (a + 4 * size) ∧ ∀ ws rest, x.Holds a ws → ws.length = size →
    decode (ws ++ rest) = do return (← r) :: (← decode rest)

theorem takesItem_word (x : OpenIndex) : TakesItem x x.takeWord 1 .ok where
  nil := rfl
  cons := by
    intro a
    refine ⟨x.word a, takesAt_word x a, ?_⟩
    intro ws rest h hlen
    match ws, hlen with
    | [w], _ =>
      rw [(OpenIndex.holds_cons h).1]
      rfl

theorem takesItem_line (x : OpenIndex) : TakesItem x x.takeString 1 (·.mapM x.strings.get) where
  nil := rfl
  cons := by
    intro a
    refine ⟨x.string a, takesAt_string x a, ?_⟩
    intro ws rest h hlen
    match ws, hlen with
    | [w], _ =>
      rw [OpenIndex.string_of_word (OpenIndex.holds_cons h).1]
      exact List.mapM_cons

theorem takesAt_position (x : OpenIndex) (a : Nat) : TakesAt x x.takePosition a (do
    let filename ← x.string a
    let offset ← x.word (a + 4)
    let line ← x.word (a + 8)
    let column ← x.word (a + 12)
    return { filename, offset, line, column }) (a + 16) :=
  (takesAt_string x a).bind fun _ _ => (takesAt_word x _).bind fun _ _ => (takesAt_word x _).bind fun _ _ =>
    (takesAt_word x _).bind fun _ hle => takesAt_pure hle _

theorem takesItem_import (x : OpenIndex) : TakesItem x x.takeImport 6 x.importsOfWords where
  nil := rfl
  cons := by
    intro a
    refine ⟨_, (takesAt_string x a).bind fun _ _ => (takesAt_string x _).bind fun _ _ =>
      (takesAt_position x _).bind fun _ hle => takesAt_pure hle _, ?_⟩
    intro ws rest h hlen
    match ws, hlen with
    | [path, doc, filename, offset, line, column], _ =>
      obtain ⟨h0, h⟩ := OpenIndex.holds_cons h
      obtain ⟨h1, h⟩ := OpenIndex.holds_cons h
      obtain ⟨h2, h⟩ := OpenIndex.holds_cons h
      obtain ⟨h3, h⟩ := OpenIndex.holds_cons h
      obtain ⟨h4, h⟩ := OpenIndex.holds_cons h
      obtain ⟨h5, -⟩ := OpenIndex.holds_cons h
      rw [OpenIndex.string_of_word h0, OpenIndex.string_of_word h1, OpenIndex.string_of_word h2, h3, h4, h5]
      simp only [List.cons_append, List.nil_append, OpenIndex.importsOfWords, bind_assoc]
      rfl

theorem takesItem_embed (x : OpenIndex) : TakesItem x x.takeEmbed 5 x.embedsOfWords where
  nil := rfl
  cons := by
    intro a
    refine ⟨_, (takesAt_string x a).bind fun _ _ => (takesAt_position x _).bind fun _ hle => takesAt_pure hle _, ?_⟩
    intro ws rest h hlen
    match ws, hlen with
    | [pattern, filename, offset, line, column], _ =>
      obtain ⟨h0, h⟩ := OpenIndex.holds_cons h
      obtain ⟨h1, h⟩ := OpenIndex.holds_cons h
      obtain ⟨h2, h⟩ := OpenIndex.holds_cons h
      obtain ⟨h3, h⟩ := OpenIndex.holds_cons h
      obtain ⟨h4, -⟩ := OpenIndex.holds_cons h
      rw [OpenIndex.string_of_word h0, OpenIndex.string_of_word h1, h2, h3, h4]
      simp only [List.cons_append, List.nil_append, OpenIndex.embedsOfWords, bind_assoc]
      rfl

variable {item : Taking α} {size : Nat} {decode : List UInt32 → Field (List α)}

/-- Items that stand in a row are taken as their words are decoded. -/
theorem run_takeTimes (h : TakesItem x item size decode) (n : Nat) {ws : List UInt32} (hws : x.Holds a ws)
    (hn : n * size = ws.length) : (takeTimes item n).run a = (decode ws).map (·, a + 4 * ws.length) := by
  induction n generalizing a ws with
  | zero =>
    have hnil : ws = [] := List.eq_nil_of_length_eq_zero (by omega)
    subst hnil
    rw [h.nil]
    rfl
  | succ n ih =>
    rw [Nat.succ_mul] at hn
    obtain ⟨r, hr, hdecode⟩ := h.cons a
    have hsplit : ws.take size ++ ws.drop size = ws := List.take_append_drop size ws
    have hfirst : (ws.take size).length = size := by simp; omega
    have hrest : (ws.drop size).length = n * size := by simp; omega
    rw [← hsplit] at hws
    obtain ⟨hws1, hws2⟩ := OpenIndex.holds_append hws
    have hrun := ih hws2 (hfirst.symm ▸ hrest.symm)
    rw [← hsplit, hdecode _ _ hws1 hfirst, List.length_append, hfirst, Nat.mul_add, ← Nat.add_assoc]
    rw [hfirst] at hrun
    rw [takeTimes, StateT.run_bind, hr.run]
    cases r with
    | error e => rfl
    | ok v =>
      show (takeTimes item n >>= fun vs => pure (v :: vs) : Taking (List α)).run (a + 4 * size) = _
      rw [StateT.run_bind, hrun]
      cases decode (ws.drop size) <;> rfl

/-- Items that are taken stand in the record area. -/
theorem takeTimes_inside (h : TakesItem x item size decode) {n : Nat} {vs : List α} (ha : a ≤ x.tableOffset)
    (hrun : (takeTimes item n).run a = .ok (vs, b)) : a + 4 * (n * size) ≤ x.tableOffset := by
  induction n generalizing a b vs with
  | zero => omega
  | succ n ih =>
    obtain ⟨v, c, hv, hrun⟩ := take_bind_eq_ok.mp hrun
    obtain ⟨us, d, hus, -⟩ := take_bind_eq_ok.mp hrun
    obtain ⟨r, hr, -⟩ := h.cons a
    obtain ⟨hr', rfl⟩ := hr.eq_ok_iff.mp hv
    have hle := ih (hr.inside v hr') hus
    have hmul : (n + 1) * size = n * size + size := Nat.succ_mul n size
    omega

/-- Items can be taken where their words stand and can be decoded. -/
theorem takeTimes_eq_ok (hx : x.Bounded) (h : TakesItem x item size decode) (ha : a ≤ x.tableOffset) {n : Nat}
    {vs : List α} : (takeTimes item n).run a = .ok (vs, b) ↔
      ∃ ws, x.Holds a ws ∧ n * size = ws.length ∧ decode ws = .ok vs ∧ b = a + 4 * ws.length := by
  constructor
  · intro hrun
    obtain ⟨ws, hws, hlen⟩ := OpenIndex.exists_holds hx.inside (takeTimes_inside h ha hrun)
    rw [run_takeTimes h n hws hlen.symm, map_eq_ok] at hrun
    obtain ⟨us, hus, e⟩ := hrun
    cases e
    exact ⟨ws, hws, hlen.symm, hus, rfl⟩
  · rintro ⟨ws, hws, hlen, hvs, rfl⟩
    rw [run_takeTimes h n hws hlen, hvs]
    rfl

/-! ## Counted lists -/

/-- Taking a list is reading all of its words and decoding them. -/
theorem takeList_eq_ok (hx : x.Bounded) (h : TakesItem x item size decode) {vs : List α} :
    (x.takeList item).run a = .ok (vs, b) ↔
      (x.list a size >>= decode) = .ok vs ∧ x.afterList a size = .ok b := by
  constructor
  · intro hrun
    obtain ⟨n, c, htake, hrun⟩ := take_bind_eq_ok.mp hrun
    obtain ⟨hn, rfl⟩ := (takesAt_word x a).eq_ok_iff.mp htake
    obtain ⟨ws, hws, hlen, hvs, rfl⟩ := (takeTimes_eq_ok hx h (OpenIndex.word_le hn)).mp hrun
    have hle := hws.1
    refine ⟨bind_eq_ok.mpr ⟨ws, (OpenIndex.list_eq_ok hx.fits).mpr ⟨n, hn, hws, hlen⟩, hvs⟩, ?_⟩
    exact (OpenIndex.afterList_eq_ok hx.fits).mpr ⟨n, hn, by omega, by omega⟩
  · rintro ⟨hlist, hb⟩
    obtain ⟨ws, hws, hvs⟩ := bind_eq_ok.mp hlist
    obtain ⟨n, hn, rfl, -⟩ := (OpenIndex.afterList_eq_ok hx.fits).mp hb
    obtain ⟨m, hm, hws, hlen⟩ := (OpenIndex.list_eq_ok hx.fits).mp hws
    rw [hn] at hm
    cases hm
    refine take_bind_eq_ok.mpr ⟨n, a + 4, (takesAt_word x a).eq_ok_iff.mpr ⟨hn, rfl⟩, ?_⟩
    exact (takeTimes_eq_ok hx h (OpenIndex.word_le hn)).mpr ⟨ws, hws, hlen, hvs, by omega⟩

theorem passWords_eq_ok (hx : x.Bounded) {n : Nat} (ha : a ≤ x.tableOffset) :
    (x.passWords n).run a = .ok ((), b) ↔ b = a + 4 * n ∧ b ≤ x.tableOffset := by
  constructor
  · intro hrun
    obtain ⟨ws, c, hws, e⟩ := take_bind_eq_ok.mp hrun
    cases e
    obtain ⟨us, hus, hlen, -, rfl⟩ := (takeTimes_eq_ok hx (takesItem_word x) ha).mp hws
    have hle := hus.1
    omega
  · rintro ⟨rfl, hle⟩
    obtain ⟨ws, hws, hlen⟩ := OpenIndex.exists_holds hx.inside hle
    refine take_bind_eq_ok.mpr ⟨ws, a + 4 * n, ?_, rfl⟩
    exact (takeTimes_eq_ok hx (takesItem_word x) ha).mpr ⟨ws, hws, by omega, rfl, by omega⟩

theorem passList_eq_ok (hx : x.Bounded) :
    (x.passList size).run a = .ok ((), b) ↔ x.afterList a size = .ok b := by
  rw [OpenIndex.afterList_eq_ok hx.fits]
  constructor
  · intro hrun
    obtain ⟨n, c, htake, hrun⟩ := take_bind_eq_ok.mp hrun
    obtain ⟨hn, rfl⟩ := (takesAt_word x a).eq_ok_iff.mp htake
    obtain ⟨rfl, hle⟩ := (passWords_eq_ok hx (OpenIndex.word_le hn)).mp hrun
    exact ⟨n, hn, by omega, hle⟩
  · rintro ⟨n, hn, rfl, hle⟩
    refine take_bind_eq_ok.mpr ⟨n, a + 4, (takesAt_word x a).eq_ok_iff.mpr ⟨hn, rfl⟩, ?_⟩
    exact (passWords_eq_ok hx (OpenIndex.word_le hn)).mpr ⟨by omega, hle⟩

end

/-! ## Files -/

section

variable {α β : Type} {x : OpenIndex} {a size : Nat} {item : Taking α} {decode : List UInt32 → Field (List α)}

theorem exists_takeList (hx : x.Bounded) (h : TakesItem x item size decode) {vs : List α} :
    (∃ b, (x.takeList item).run a = .ok (vs, b)) ↔ (x.list a size >>= decode) = .ok vs := by
  constructor
  · rintro ⟨b, hb⟩
    exact ((takeList_eq_ok hx h).mp hb).1
  · intro hvs
    obtain ⟨ws, hws, -⟩ := bind_eq_ok.mp hvs
    obtain ⟨b, hb⟩ := OpenIndex.exists_afterList hx.fits hws
    exact ⟨b, (takeList_eq_ok hx h).mpr ⟨hvs, hb⟩⟩

/-- What follows a list starts where `afterList` says. -/
theorem exists_takeList_bind (hx : x.Bounded) (h : TakesItem x item size decode) {f : List α → Taking β} {v : β} :
    (∃ b, (x.takeList item >>= f).run a = .ok (v, b)) ↔ ∃ vs, (x.list a size >>= decode) = .ok vs ∧
      ∃ c, x.afterList a size = .ok c ∧ ∃ b, (f vs).run c = .ok (v, b) := by
  simp only [take_bind_eq_ok, takeList_eq_ok hx h]
  constructor
  · rintro ⟨b, vs, c, ⟨hvs, hc⟩, h⟩
    exact ⟨vs, hvs, c, hc, b, h⟩
  · rintro ⟨vs, hvs, c, hc, b, h⟩
    exact ⟨b, vs, c, ⟨hvs, hc⟩, h⟩

theorem exists_passList_bind (hx : x.Bounded) {t : Taking β} {v : β} :
    (∃ b, (do x.passList size; t).run a = .ok (v, b)) ↔
      ∃ c, x.afterList a size = .ok c ∧ ∃ b, t.run c = .ok (v, b) := by
  simp only [take_bind_eq_ok, passList_eq_ok hx]
  constructor
  · rintro ⟨b, _, c, hc, h⟩
    exact ⟨c, hc, b, h⟩
  · rintro ⟨c, hc, b, h⟩
    exact ⟨b, (), c, hc, h⟩

end

section

variable {e : FileEntry}

theorem takesAt_passWords (he : e.Standing) {n : Nat} (hn : n ≤ 10) :
    TakesAt e.index (e.index.passWords n) e.offset (.ok ()) (e.offset + 4 * n) := by
  have hle := he.fixed_le
  constructor
  · exact (passWords_eq_ok he.bounded (by omega)).mpr ⟨rfl, by omega⟩
  · intro _ _
    omega

theorem exists_after_words (he : e.Standing) {n : Nat} (hn : n ≤ 10) {α : Type} {t : Taking α} {v : α} :
    (∃ b, (do e.index.passWords n; t).run e.offset = .ok (v, b)) ↔ ∃ b, t.run (e.offset + 4 * n) = .ok (v, b) := by
  rw [(takesAt_passWords he hn).exists_bind]
  exact ⟨fun ⟨_, _, h⟩ => h, fun h => ⟨(), rfl, h⟩⟩

theorem exists_fixed (he : e.Standing) (n : Nat) (hn : n ≤ 10) {α : Type} {t : Taking α} {r : Field α} {c : Nat}
    (ht : TakesAt e.index t (e.offset + 4 * n) r c) {v : α} :
    r = .ok v ↔ ∃ b, (do e.index.passWords n; t).run e.offset = .ok (v, b) :=
  ((exists_after_words he hn).trans (exists_of_takesAt ht)).symm

/-- The list of imports begins behind the `+build` lines. -/
theorem imports_eq_ok (he : e.Standing) {is : List Import} : e.imports = .ok is ↔
    ∃ c, e.index.afterList (e.offset + 40) 1 = .ok c ∧ (e.index.list c 6 >>= e.index.importsOfWords) = .ok is := by
  rw [FileEntry.imports_of_sound he.sound]
  exact bind_eq_ok

/-- The list of embeds begins behind the imports. -/
theorem embeds_eq_ok (he : e.Standing) {es : List Embed} : e.embeds = .ok es ↔
    ∃ c, e.index.afterList (e.offset + 40) 1 = .ok c ∧ ∃ d, e.index.afterList c 6 = .ok d ∧
      (e.index.list d 5 >>= e.index.embedsOfWords) = .ok es := by
  rw [FileEntry.embeds_of_sound he.sound, OpenIndex.embedsAt, OpenIndex.embedsStart, bind_assoc, bind_eq_ok]
  exact exists_congr fun c => and_congr_right fun _ => bind_eq_ok

/-- A record can be read where all of its words can be taken in a row. -/
theorem read_eq_ok_iff_takeFile (he : e.Standing) {r : FileRecord} :
    e.view.read = .ok r ↔ ∃ b, e.index.takeFile.run e.offset = .ok (r, b) := by
  have hx := he.bounded
  rw [FileView.read_eq_ok]
  simp only [OpenIndex.takeFile, (takesAt_string _ _).exists_bind, (takesAt_bool _ _).exists_bind,
    (takesAt_word _ _).exists_bind, exists_takeList_bind hx (takesItem_line _),
    exists_takeList_bind hx (takesItem_import _), exists_takeList_bind hx (takesItem_embed _)]
  constructor
  · intro h
    obtain ⟨es, hes, hgrouped⟩ := h.embeds
    obtain ⟨c, hc, himports⟩ := (imports_eq_ok he).mp h.imports
    obtain ⟨c', hc', d, hd, hembeds⟩ := (embeds_eq_ok he).mp hes
    rw [hc] at hc'
    cases hc'
    obtain ⟨ws, hws, -⟩ := bind_eq_ok.mp hembeds
    obtain ⟨b, hb⟩ := OpenIndex.exists_afterList hx.fits hws
    refine ⟨_, h.error, _, h.parseError, _, h.synopsis, _, h.name, _, h.pkgName, _, h.ignoreFile, _, h.binaryOnly,
      _, h.importComment, _, h.importCommentLine, _, h.goBuild, _, h.plusBuild, c, hc, _, himports, d, hd, es, hembeds,
      b, hb, b, ?_⟩
    rw [← hgrouped]
    rfl
  · rintro ⟨_, herror, _, hparseError, _, hsynopsis, _, hname, _, hpkgName, _, hignoreFile, _, hbinaryOnly,
      _, himportComment, _, himportCommentLine, _, hgoBuild, _, hplusBuild, c, hc, _, himports, d, hd, es, hembeds,
      _, _, _, hr⟩
    cases hr
    exact ⟨hname, hsynopsis, hpkgName, hignoreFile, hbinaryOnly, hgoBuild, hplusBuild, himportComment,
      himportCommentLine, (imports_eq_ok he).mpr ⟨c, hc, himports⟩,
      ⟨es, (embeds_eq_ok he).mpr ⟨c, hc, d, hd, hembeds⟩, rfl⟩, herror, hparseError⟩

/-- Every question has the answer that stands where the words in front of it end. -/
theorem answer_eq_ok (he : e.Standing) {α : Type} (q : Question α) {v : α} :
    e.view.answer q = .ok v ↔ ∃ b, (e.index.taking q).run e.offset = .ok (v, b) := by
  have hx := he.bounded
  cases q with
  | error => exact (exists_of_takesAt (takesAt_string _ _)).symm
  | parseError => exact exists_fixed he 1 (by omega) (takesAt_string _ _)
  | synopsis => exact exists_fixed he 2 (by omega) (takesAt_string _ _)
  | name => exact exists_fixed he 3 (by omega) (takesAt_string _ _)
  | pkgName => exact exists_fixed he 4 (by omega) (takesAt_string _ _)
  | ignoreFile => exact exists_fixed he 5 (by omega) (takesAt_bool _ _)
  | binaryOnly => exact exists_fixed he 6 (by omega) (takesAt_bool _ _)
  | importComment => exact exists_fixed he 7 (by omega) (takesAt_string _ _)
  | importCommentLine => exact exists_fixed he 8 (by omega) (takesAt_word _ _)
  | goBuild => exact exists_fixed he 9 (by omega) (takesAt_string _ _)
  | plusBuild => exact ((exists_after_words he (Nat.le_refl 10)).trans (exists_takeList hx (takesItem_line _))).symm
  | imports =>
    rw [OpenIndex.taking, exists_after_words he (Nat.le_refl 10), exists_passList_bind hx]
    refine (imports_eq_ok he).trans (exists_congr fun c => and_congr_right fun _ => ?_)
    exact (exists_takeList hx (takesItem_import _)).symm
  | embeds =>
    rw [OpenIndex.taking, exists_after_words he (Nat.le_refl 10), exists_passList_bind hx]
    refine (embeds_eq_ok he).trans (exists_congr fun c => and_congr_right fun _ => ?_)
    rw [exists_passList_bind hx]
    exact exists_congr fun d => and_congr_right fun _ => (exists_takeList hx (takesItem_embed _)).symm
  | record => exact read_eq_ok_iff_takeFile he

end

/-! ## Any number of questions -/

namespace Inquiry

/-- In every state that questions lead to, a question has the answer that is found by going through the words of the
file from the front, if there is one; and it is answered, or fails, as in any other state. -/
theorem front_to_back {moduleDir : String} {data : Array UInt8} {x : OpenIndex}
    (hx : OpenIndex.ofBytes moduleDir data = .ok x) {s : Inquiry} (hs : Reached x s) (i : Fin s.files.length) {α : Type}
    (q : Question α) :
    (∀ v, (s.ask i q).1 = .ok v ↔ ∃ b, (x.taking q).run (s.files.get i).offset = .ok (v, b)) ∧
    ∀ t, Reached x t → ∀ j : Fin t.files.length, (t.files.get j).offset = (s.files.get i).offset →
      (t.ask j q).1 = (s.ask i q).1 := by
  have hbounded := OpenIndex.bounded_of_ofBytes hx
  have hinv := inv_of_reached hbounded hs
  obtain ⟨hindex, hf⟩ := hinv.files _ (List.get_mem s.files i)
  refine ⟨?_, ?_⟩
  · intro v
    rw [ask_answer hinv, mapError_eq_ok, ← hindex]
    exact answer_eq_ok hf q
  · intro t ht j ho
    have htinv := inv_of_reached hbounded ht
    obtain ⟨hjindex, hg⟩ := htinv.files _ (List.get_mem t.files j)
    have hview := FileEntry.view_of_sound hf.sound hg.sound (hjindex.trans hindex.symm) ho
    rw [ask_answer htinv, ask_answer hinv]
    exact congrArg (fun f : FileView => (f.answer q).mapError Fault.format) hview

theorem sampleFound_front_to_back :
    (sampleFound.ask ⟨0, sampleFound_pos⟩ .synopsis).1 = .error (.format (.stringPastEnd 99 5)) ∧
    (sampleFound.ask ⟨0, sampleFound_pos⟩ .imports).1 = .ok [⟨"b", "", ⟨"a", 5, 6, 7⟩⟩] ∧
    ∃ b, (sampleOpen.taking .imports).run 52 = .ok ([⟨"b", "", ⟨"a", 5, 6, 7⟩⟩], b) := by
  have hs : Reached sampleOpen sampleFound := .package "" .start
  have himports : (sampleFound.ask ⟨0, sampleFound_pos⟩ .imports).1 = .ok [⟨"b", "", ⟨"a", 5, 6, 7⟩⟩] := by
    decide +kernel
  have hoffset : (sampleFound.files.get ⟨0, sampleFound_pos⟩).offset = 52 := by
    decide +kernel
  have htaken := ((front_to_back ofBytes_sampleTorn hs ⟨0, sampleFound_pos⟩ .imports).1 _).mp himports
  rw [hoffset] at htaken
  exact ⟨by decide +kernel, himports, htaken⟩

end Inquiry

end PackageIndex
