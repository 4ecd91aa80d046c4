/-
  PackageIndex.Proofs.Index.Truncation — an index of which the end is missing.

  Words are read in front of the string table only, so an index that opens has all of
  them; what can be missing is strings. `Extends x y` says that `y` has at least the
  strings of `x`, and everything read of `x` is then what is read of `y`, or fails.
  - `extends_of_append`: more bytes behind an index that opens extend it.
  - `truncated_reads`: every question to an index that opens is answered as by the whole
    file, or with a format error.
-/

import PackageIndex.Index.Resolve
import PackageIndex.Proofs.Index.Located
import PackageIndex.Proofs.Index.Opening
import PackageIndex.Proofs.Index.Strings
import PackageIndex.Proofs.Resolve.Concurring

namespace PackageIndex

open Fallible

/-- The field `r` is `s`, or cannot be read. -/
abbrev Field.PartOf {α : Type} (r s : Field α) : Prop := Concurs (fun _ => True) (fun _ => True) r s

abbrev FileView.PartOf (f g : FileView) : Prop := FileView.Concurs (fun _ => True) (fun _ => True) f g

abbrev PackageView.PartOf (p q : PackageView) : Prop := PackageView.Concurs (fun _ => True) (fun _ => True) p q

namespace OpenIndex

/-- `y` has the records of `x`, and at least its strings. -/
structure Extends (x y : OpenIndex) : Prop where
  packages : y.packages = x.packages
  moduleDir : y.moduleDir = x.moduleDir
  tableOffset : y.tableOffset = x.tableOffset
  words : ∀ a n, y.words a n = x.words a n
  strings : ∀ w s, x.strings.get w = .ok s → y.strings.get w = .ok s

/-! ## Opening -/

theorem extract_append {data : Array UInt8} {a : Nat} (h : a ≤ data.size) (more : Array UInt8) :
    (data ++ more).extract a = data.extract a ++ more := by
  rw [Array.extract_append, Nat.sub_eq_zero_of_le h, Array.size_append, Nat.add_sub_cancel_left, Array.extract_size]
  congr 1
  apply Array.extract_eq_extract_right.mpr
  omega

theorem header_append {data : Array UInt8} {table count : UInt32} (h : Header data table count) (more : Array UInt8) :
    Header (data ++ more) table count := by
  have hle := h.packages_le
  have hlt := h.lt_size
  refine ⟨?_, ?_, ?_, hle, ?_, ?_⟩
  · have h12 : indexVersion.length = 12 := rfl
    have hmore : more.extract (0 - data.size) (indexVersion.length - data.size) = #[] :=
      Array.extract_eq_empty_of_le (by omega)
    rw [Array.extract_append, hmore, Array.append_empty]
    exact h.version
  · rw [wordAt?_append (by omega)]
    exact h.table_eq
  · rw [wordAt?_append (by omega)]
    exact h.count_eq
  · rw [Array.size_append]
    omega
  · rw [Array.getElem?_append_left hlt]
    exact h.zero

theorem packageTable_append {data : Array UInt8} {table count : UInt32} (h : Header data table count)
    {packages : List (String × Nat)} (hp : packageTable data table count = .ok packages) (more : Array UInt8) :
    packageTable (data ++ more) table count = .ok packages := by
  have hle := h.packages_le
  have hlt := h.lt_size
  unfold packageTable at hp ⊢
  rw [wordsAt?_append (by omega), wordsAt?_append (by omega), extract_append (Nat.le_of_lt hlt)]
  refine mapM_eq_ok.mpr ((mapM_eq_ok.mp hp).imp fun entry p hentry => ?_)
  obtain ⟨dir, hdir, e⟩ := bind_eq_ok.mp hentry
  exact bind_eq_ok.mpr ⟨dir, StringTable.get_append hdir more, e⟩

/-- The record area ends before the string table, so what opens has all of its words. -/
theorem extends_of_append {moduleDir : String} {data : Array UInt8} {x : OpenIndex} (h : ofBytes moduleDir data = .ok x)
    (more : Array UInt8) : ∃ y, ofBytes moduleDir (data ++ more) = .ok y ∧ x.Extends y := by
  obtain ⟨table, count, packages, hh, hp, rfl⟩ := ofBytes_eq_ok.mp h
  have hlt := hh.lt_size
  refine ⟨_, ofBytes_eq_ok.mpr ⟨table, count, packages, header_append hh more, packageTable_append hh hp more, rfl⟩, ?_⟩
  refine ⟨rfl, rfl, rfl, fun a n => ?_, fun w s hs => ?_⟩
  · unfold words
    by_cases ha : a + 4 * n ≤ table.toNat
    · rw [if_pos ha, if_pos ha, wordsAt?_append (by omega)]
    · rw [if_neg ha, if_neg ha]
  · rw [extract_append (Nat.le_of_lt hlt)]
    exact StringTable.get_append hs more

/-! ## Reading fields -/

section

variable {x y : OpenIndex} (h : x.Extends y)
include h

theorem Extends.get (w : UInt32) : Field.PartOf (x.strings.get w) (y.strings.get w) :=
  concurs_of_ok fun s => h.strings w s

theorem Extends.word (a : Nat) : y.word a = x.word a := by
  unfold OpenIndex.word
  rw [h.words, h.tableOffset]

theorem Extends.string (a : Nat) : Field.PartOf (x.string a) (y.string a) := by
  unfold OpenIndex.string
  rw [h.word]
  exact (Concurs.of_eq rfl).bind fun w => h.get w

theorem Extends.bool (a : Nat) : y.bool a = x.bool a := by
  unfold OpenIndex.bool
  rw [h.word]

theorem Extends.list (a size : Nat) : y.list a size = x.list a size := by
  unfold OpenIndex.list
  rw [h.word]
  simp only [h.words]

theorem Extends.afterList (a size : Nat) : y.afterList a size = x.afterList a size := by
  unfold OpenIndex.afterList
  rw [h.word, h.tableOffset]

theorem Extends.importsOfWords (ws : List UInt32) : Field.PartOf (x.importsOfWords ws) (y.importsOfWords ws) := by
  induction ws using OpenIndex.importsOfWords.induct with
  | case1 path doc filename offset line column rest ih =>
    rw [OpenIndex.importsOfWords, OpenIndex.importsOfWords]
    exact (h.get path).bind fun _ => (h.get doc).bind fun _ => (h.get filename).bind fun _ =>
      ih.bind fun _ => Concurs.of_eq rfl
  | case2 ws hws =>
    rw [OpenIndex.importsOfWords, OpenIndex.importsOfWords]
    · exact Concurs.of_eq rfl
    · exact hws
    · exact hws

theorem Extends.embedsOfWords (ws : List UInt32) : Field.PartOf (x.embedsOfWords ws) (y.embedsOfWords ws) := by
  induction ws using OpenIndex.embedsOfWords.induct with
  | case1 pattern filename offset line column rest ih =>
    rw [OpenIndex.embedsOfWords, OpenIndex.embedsOfWords]
    exact (h.get pattern).bind fun _ => (h.get filename).bind fun _ => ih.bind fun _ => Concurs.of_eq rfl
  | case2 ws hws =>
    rw [OpenIndex.embedsOfWords, OpenIndex.embedsOfWords]
    · exact Concurs.of_eq rfl
    · exact hws
    · exact hws

theorem Extends.importsStart (a : Nat) : y.importsStart a = x.importsStart a := h.afterList _ 1

theorem Extends.importsAt (a : Nat) : Field.PartOf (x.importsAt a) (y.importsAt a) := by
  unfold OpenIndex.importsAt
  rw [h.importsStart]
  refine (Concurs.of_eq rfl).bind fun b => ?_
  rw [h.list]
  exact (Concurs.of_eq rfl).bind fun ws => h.importsOfWords ws

theorem Extends.embedsAt (a : Nat) : Field.PartOf (x.embedsAt a) (y.embedsAt a) := by
  unfold OpenIndex.embedsAt OpenIndex.embedsStart
  rw [h.importsStart]
  refine Concurs.bind ((Concurs.of_eq rfl).bind fun b => ?_) fun b => ?_
  · rw [h.afterList]
    exact Concurs.of_eq rfl
  · rw [h.list]
    exact (Concurs.of_eq rfl).bind fun ws => h.embedsOfWords ws

theorem Extends.view (a : Nat) :
    FileView.PartOf (FileEntry.view { index := x, offset := a }) (FileEntry.view { index := y, offset := a }) where
  name := h.string _
  synopsis := h.string _
  pkgName := h.string _
  ignoreFile := .of_eq (h.bool _).symm
  binaryOnly := .of_eq (h.bool _).symm
  goBuild := h.string _
  plusBuild := by
    show Field.PartOf (FileEntry.plusBuild _) (FileEntry.plusBuild _)
    unfold FileEntry.plusBuild
    rw [h.list]
    refine (Concurs.of_eq rfl).bind fun ws => ?_
    exact Concurs.mapM (List.forall₂_same.mpr fun _ _ => rfl) fun w v e => e ▸ h.get w
  importComment := h.string _
  importCommentLine := .of_eq (h.word _).symm
  imports := by
    show Field.PartOf (FileEntry.imports { index := x, offset := a }) (FileEntry.imports { index := y, offset := a })
    rw [FileEntry.imports_of_sound (FileEntry.sound_new x a), FileEntry.imports_of_sound (FileEntry.sound_new y a)]
    exact h.importsAt a
  embeds := by
    show Field.PartOf (FileEntry.embeds { index := x, offset := a }) (FileEntry.embeds { index := y, offset := a })
    rw [FileEntry.embeds_of_sound (FileEntry.sound_new x a), FileEntry.embeds_of_sound (FileEntry.sound_new y a)]
    exact h.embedsAt a
  error := h.string _
  parseError := h.string _

end

/-! ## Packages -/

theorem sound_files {x : OpenIndex} {a : Nat} {p : PackageEntry} (hp : x.packageAt a = .ok p) :
    ∀ f ∈ p.files, f.Sound := by
  obtain ⟨_, _, _, _, _, offsets, -, -, hfiles, -⟩ := packageAt_eq_ok.mp hp
  intro f hf
  obtain ⟨offset, -, hat⟩ := exists_of_forall₂ hfiles hf
  obtain ⟨-, rfl⟩ := fileAt_eq_ok.mp hat
  exact FileEntry.sound_new x _

theorem Extends.files {x y : OpenIndex} (h : x.Extends y) {offsets : List UInt32} {fs : List FileEntry}
    (hfs : List.Forall₂ (fun offset f => x.fileAt (UInt32.toNat offset) = .ok f) offsets fs) :
    ∃ gs, List.Forall₂ (fun offset g => y.fileAt (UInt32.toNat offset) = .ok g) offsets gs ∧
      List.Forall₂ FileView.PartOf (fs.map FileEntry.view) (gs.map FileEntry.view) := by
  induction hfs with
  | nil => exact ⟨[], .nil, .nil⟩
  | @cons offset f _ _ hf _ ih =>
    obtain ⟨gs, hgs, hviews⟩ := ih
    obtain ⟨hle, rfl⟩ := fileAt_eq_ok.mp hf
    have hg : y.fileAt offset.toNat = .ok { index := y, offset := offset.toNat } :=
      fileAt_eq_ok.mpr ⟨h.tableOffset ▸ hle, rfl⟩
    exact ⟨_ :: gs, .cons hg hgs, .cons (h.view _) hviews⟩

theorem Extends.packageAt {x y : OpenIndex} (h : x.Extends y) {a : Nat} {p : PackageEntry}
    (hp : x.packageAt a = .ok p) : ∃ q, y.packageAt a = .ok q ∧ p.view.PartOf q.view := by
  obtain ⟨error, path, srcDir, dir, n, offsets, hws, hoffsets, hfiles, herror, hpath, hsrc, hdir⟩ :=
    packageAt_eq_ok.mp hp
  obtain ⟨files, hfiles, hviews⟩ := h.files hfiles
  refine ⟨⟨p.error, p.path, p.srcDir, p.dir, files⟩, packageAt_eq_ok.mpr ?_, ⟨rfl, rfl, rfl, rfl, hviews⟩⟩
  exact ⟨error, path, srcDir, dir, n, offsets, (h.words a 5).trans hws, (h.words _ _).trans hoffsets, hfiles,
    h.strings _ _ herror, h.strings _ _ hpath, h.strings _ _ hsrc, h.strings _ _ hdir⟩

theorem Extends.address? {x y : OpenIndex} (h : x.Extends y) (dir : String) : y.address? dir = x.address? dir := by
  unfold OpenIndex.address?
  rw [h.packages]

end OpenIndex

/-- Whatever was asked of the files of either before, each field of `p` and of its files, and the records read
of them, are those of `q`, or cannot be read. -/
def PackageEntry.PartOf (p q : PackageEntry) : Prop :=
  ∀ p' q', p.Later p' → q.Later q' → p'.view.PartOf q'.view ∧ Field.PartOf p'.view.read q'.view.read ∧
    List.Forall₂ (fun f g => Field.PartOf (FileView.read f) (FileView.read g)) p'.view.files q'.view.files

theorem PackageEntry.partOf_of_view {p q : PackageEntry} (hp : ∀ f ∈ p.files, f.Sound) (hq : ∀ f ∈ q.files, f.Sound)
    (h : p.view.PartOf q.view) : p.PartOf q := by
  intro p' q' hp' hq'
  rw [PackageEntry.view_of_later hp hp', PackageEntry.view_of_later hq hq']
  exact ⟨h, h.read, h.files.imp fun _ _ => FileView.Concurs.read⟩

namespace OpenIndex

/-- The package `x` finds is the one `y` finds, as far as it can be read. -/
inductive Finds (x y : OpenIndex) (dir : String) : Prop
  | fails (e : FormatError) : x.package? dir = .error e → Finds x y dir
  | missing : x.package? dir = .ok none → y.package? dir = .ok none → Finds x y dir
  | found (p q : PackageEntry) : x.package? dir = .ok (some p) → y.package? dir = .ok (some q) → p.PartOf q →
    Finds x y dir

theorem Extends.finds {x y : OpenIndex} (h : x.Extends y) (dir : String) : x.Finds y dir := by
  cases ha : x.address? dir with
  | none =>
    have hb := (h.address? dir).trans ha
    refine .missing ?_ ?_
    · unfold package?
      rw [ha]
      rfl
    · unfold package?
      rw [hb]
      rfl
  | some a =>
    have hb := (h.address? dir).trans ha
    have hx : x.package? dir = some <$> x.packageAt a := by
      unfold package?
      rw [ha]
    have hy : y.package? dir = some <$> y.packageAt a := by
      unfold package?
      rw [hb]
    cases hp : x.packageAt a with
    | error e => exact .fails e (by rw [hx, hp]; rfl)
    | ok p =>
      obtain ⟨q, hq, hview⟩ := h.packageAt hp
      refine .found p q (by rw [hx, hp]; rfl) (by rw [hy, hq]; rfl) ?_
      exact PackageEntry.partOf_of_view (sound_files hp) (sound_files hq) hview

theorem Extends.resolve {x y : OpenIndex} (h : x.Extends y) (dir : String) (ctx : BuildContext) (mode : ResolveMode) :
    x.resolve dir ctx mode = y.resolve dir ctx mode ∨ ∃ fault, x.resolve dir ctx mode = .error (.format fault) := by
  unfold OpenIndex.resolve
  rw [h.moduleDir]
  cases h.finds dir with
  | fails e hx =>
    rw [hx]
    exact Or.inr ⟨e, rfl⟩
  | missing hx hy =>
    rw [hx, hy]
    exact Or.inl rfl
  | found p q hx hy hpq =>
    obtain ⟨hview, -⟩ := hpq p q p.later_refl q.later_refl
    rw [hx, hy]
    rcases concurs_resolve hview ctx mode with ⟨hsame, -⟩ | ⟨_, @⟨fault, -⟩, hfails⟩
    · exact Or.inl hsame
    · exact Or.inr ⟨fault, hfails⟩

/-- Where the front of a file opens as an index, so does the whole, and every question is answered as by
the whole or with a format error. -/
theorem truncated_reads {moduleDir : String} {data : Array UInt8} {x : OpenIndex} (h : ofBytes moduleDir data = .ok x)
    (more : Array UInt8) :
    ∃ y, ofBytes moduleDir (data ++ more) = .ok y ∧ y.dirs = x.dirs ∧ ∀ dir, x.Finds y dir ∧
      ∀ (ctx : BuildContext) (mode : ResolveMode), x.resolve dir ctx mode = y.resolve dir ctx mode ∨
        ∃ fault, x.resolve dir ctx mode = .error (.format fault) := by
  obtain ⟨y, hy, hxy⟩ := extends_of_append h more
  refine ⟨y, hy, ?_, fun dir => ⟨hxy.finds dir, hxy.resolve dir⟩⟩
  unfold dirs
  rw [hxy.packages]

/-- An index of one package of which the string table is missing but for its first byte. -/
def sampleFront : Array UInt8 := (indexVersion ++ bytesOfWords [48, 1, 0, 28, 0, 1, 1, 0, 0] ++ [0]).toArray

theorem sampleFront_reads : ∃ x y, ofBytes "/m" sampleFront = .ok x ∧ ofBytes "/m" (sampleFront ++ #[109, 0]) = .ok y ∧
    y.dirs = x.dirs ∧ x.Finds y "" := by
  have hx : ofBytes "/m" sampleFront = .ok ⟨"/m", sampleFront, 48, ⟨#[0]⟩, [("", 28)]⟩ := by decide +kernel
  obtain ⟨y, hy, hdirs, hall⟩ := truncated_reads hx #[109, 0]
  exact ⟨_, y, hx, hy, hdirs, (hall "").1⟩

end OpenIndex

end PackageIndex
