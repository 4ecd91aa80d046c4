/-
  PackageIndex.Proofs.Index.Located — what an entry remembers never changes an answer.

  - `Located.SoundFor`: a remembered address is the one that would be found again.
  - `imports_of_sound`, `embeds_of_sound`: so the two lists that have to be looked for are
    read as if nothing were remembered.
  - `view_of_later`: an entry answers the same after any of its lists were asked for, also
    where that failed.
-/

import Mathlib.Data.List.Forall2
import PackageIndex.Index.Entry
import PackageIndex.Proofs.Fallible

namespace PackageIndex

open Fallible

namespace OpenIndex

def importsStart (x : OpenIndex) (a : Nat) : Field Nat := x.afterList (a + 40) 1

def embedsStart (x : OpenIndex) (a : Nat) : Field Nat := do x.afterList (← x.importsStart a) 6

def importsAt (x : OpenIndex) (a : Nat) : Field (List Import) := do
  x.importsOfWords (← x.list (← x.importsStart a) 6)

def embedsAt (x : OpenIndex) (a : Nat) : Field (List Embed) := do
  x.embedsOfWords (← x.list (← x.embedsStart a) 5)

end OpenIndex

/-- What is remembered of the file at `a` is what would be found. -/
structure Located.SoundFor (l : Located) (x : OpenIndex) (a : Nat) : Prop where
  imports : ∀ b, l.imports = some b → x.importsStart a = .ok b
  embeds : ∀ b, l.embeds = some b → x.embedsStart a = .ok b

theorem Located.sound_empty (x : OpenIndex) (a : Nat) : Located.SoundFor {} x a where
  imports _ h := nomatch h
  embeds _ h := nomatch h

namespace FileEntry

/-! ## One reading -/

theorem run_get (l : Located) : (get : Reading Located).run.run l = (.ok l, l) := rfl

/-- A reading of `e` that answers `r`, whatever sound addresses are remembered. -/
def Reads {α : Type} (e : FileEntry) (m : Reading α) (r : Field α) : Prop :=
  ∀ l : Located, l.SoundFor e.index e.offset →
    (m.run.run l).1 = r ∧ Located.SoundFor (m.run.run l).2 e.index e.offset

theorem reads_lift {α : Type} (e : FileEntry) (r : Field α) : Reads e (liftM r : Reading α) r :=
  keeps_liftM (fun l : Located => l.SoundFor e.index e.offset) r

/-- Readings one after the other answer what their answers would give without memory. -/
theorem Reads.bind {α β : Type} {e : FileEntry} {m : Reading α} {r : Field α} {f : α → Reading β}
    {g : α → Field β} (hm : Reads e m r) (hf : ∀ a, r = .ok a → Reads e (f a) (g a)) :
    Reads e (m >>= f) (r >>= g) :=
  Keeps.bind (P := fun l : Located => l.SoundFor e.index e.offset) hm hf

/-! ## The two lists -/

theorem reads_importsAddress (e : FileEntry) : Reads e e.importsAddress (e.index.importsStart e.offset) := by
  intro l hl
  unfold importsAddress
  rw [run_bind, run_get]
  cases hi : l.imports with
  | some b =>
    simp only [hi]
    exact ⟨(hl.imports b hi).symm, hl⟩
  | none =>
    simp only [hi]
    rw [run_bind, run_liftM]
    show _ = e.index.importsStart e.offset ∧ _
    cases hs : e.index.importsStart e.offset with
    | error err =>
      rw [show e.index.afterList (e.offset + 40) 1 = .error err from hs]
      exact ⟨rfl, hl⟩
    | ok b =>
      rw [show e.index.afterList (e.offset + 40) 1 = .ok b from hs]
      exact ⟨rfl, { imports := fun c hc => by cases hc; exact hs, embeds := hl.embeds }⟩

theorem reads_embedsAddress (e : FileEntry) : Reads e e.embedsAddress (e.index.embedsStart e.offset) := by
  intro l hl
  unfold embedsAddress
  rw [run_bind, run_get]
  cases he : l.embeds with
  | some b =>
    simp only [he]
    exact ⟨(hl.embeds b he).symm, hl⟩
  | none =>
    -- looking for the embeds finds the imports too, and remembers them even where it fails then
    simp only [he]
    obtain ⟨h1, h2⟩ := Reads.bind (reads_importsAddress e) (fun b _ => reads_lift e (e.index.afterList b 6)) l hl
    rw [← bind_assoc, run_bind]
    rcases hr : (e.importsAddress >>= fun b => (liftM (e.index.afterList b 6) : Reading Nat)).run.run l with ⟨r, l1⟩
    rw [hr] at h1 h2
    subst h1
    show _ = e.index.embedsStart e.offset ∧ _
    cases hs : e.index.embedsStart e.offset with
    | error err =>
      rw [show (e.index.importsStart e.offset >>= fun b => e.index.afterList b 6) = .error err from hs]
      exact ⟨rfl, h2⟩
    | ok b =>
      rw [show (e.index.importsStart e.offset >>= fun b => e.index.afterList b 6) = .ok b from hs]
      exact ⟨rfl, { imports := h2.imports, embeds := fun c hc => by cases hc; exact hs }⟩

theorem reads_imports (e : FileEntry) : Reads e e.readImports (e.index.importsAt e.offset) :=
  (reads_importsAddress e).bind fun b _ => (reads_lift e (e.index.list b 6)).bind fun ws _ =>
    reads_lift e (e.index.importsOfWords ws)

theorem reads_embeds (e : FileEntry) : Reads e e.readEmbeds (e.index.embedsAt e.offset) :=
  (reads_embedsAddress e).bind fun b _ => (reads_lift e (e.index.list b 5)).bind fun ws _ =>
    reads_lift e (e.index.embedsOfWords ws)

/-! ## After any readings -/

/-- The entry is `e` after some of its lists were asked for, in any order and any number of times. -/
inductive Later (e : FileEntry) : FileEntry → Prop
  | refl : Later e e
  | imports {e' : FileEntry} : Later e e' → Later e (e'.remember e'.readImports).2
  | embeds {e' : FileEntry} : Later e e' → Later e (e'.remember e'.readEmbeds).2

def Sound (e : FileEntry) : Prop := e.located.SoundFor e.index e.offset

theorem sound_new (x : OpenIndex) (a : Nat) : Sound { index := x, offset := a } := Located.sound_empty x a

theorem imports_of_sound {e : FileEntry} (h : e.Sound) : e.imports = e.index.importsAt e.offset :=
  (reads_imports e e.located h).1

theorem embeds_of_sound {e : FileEntry} (h : e.Sound) : e.embeds = e.index.embedsAt e.offset :=
  (reads_embeds e e.located h).1

theorem later_sound {e e' : FileEntry} (h : e.Sound) (hl : Later e e') :
    e'.Sound ∧ e'.index = e.index ∧ e'.offset = e.offset := by
  induction hl with
  | refl => exact ⟨h, rfl, rfl⟩
  | imports _ ih => exact ⟨(reads_imports _ _ ih.1).2, ih.2⟩
  | embeds _ ih => exact ⟨(reads_embeds _ _ ih.1).2, ih.2⟩

/-- What is remembered does not show. -/
theorem view_of_sound {e e' : FileEntry} (h : e.Sound) (h' : e'.Sound) (hi : e'.index = e.index)
    (ho : e'.offset = e.offset) : e'.view = e.view := by
  unfold view
  rw [imports_of_sound h', imports_of_sound h, embeds_of_sound h', embeds_of_sound h]
  simp only [error, parseError, synopsis, name, pkgName, ignoreFile, binaryOnly, importComment, importCommentLine,
    goBuild, plusBuild, hi, ho]

/-- Asking for lists, in any order and with any result, changes no later answer. -/
theorem view_of_later {e e' : FileEntry} (h : e.Sound) (hl : Later e e') : e'.view = e.view := by
  obtain ⟨h', hi, ho⟩ := later_sound h hl
  exact view_of_sound h h' hi ho

end FileEntry

/-- The package is `p` after lists of its files were asked for. -/
def PackageEntry.Later (p p' : PackageEntry) : Prop :=
  ∃ files, List.Forall₂ FileEntry.Later p.files files ∧ p' = { p with files }

theorem PackageEntry.later_refl (p : PackageEntry) : p.Later p :=
  ⟨p.files, List.forall₂_same.mpr fun _ _ => .refl, rfl⟩

theorem PackageEntry.view_of_later {p p' : PackageEntry} (h : ∀ f ∈ p.files, f.Sound) (hl : p.Later p') :
    p'.view = p.view := by
  obtain ⟨files, hfiles, rfl⟩ := hl
  have hviews : p.files.map FileEntry.view = files.map FileEntry.view := by
    have hboth := (List.forall₂_and_left p.files files).mpr ⟨h, hfiles⟩
    rw [← List.forall₂_eq_eq_eq, List.forall₂_map_left_iff, List.forall₂_map_right_iff]
    exact hboth.imp fun f f' hf => (FileEntry.view_of_later hf.1 hf.2).symm
  unfold PackageEntry.view
  rw [hviews]

end PackageIndex
