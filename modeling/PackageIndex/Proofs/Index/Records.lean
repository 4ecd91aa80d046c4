/-
  PackageIndex.Proofs.Index.Records — records are read back where they were written.

  For each kind of record there is a relation between it and its words (`FileWords`,
  `PackageWords`), which the writer ensures and from which the reader finds the record
  again, wherever the words stand and whatever stands around them.

  - `view_of_fileWords`: every field of a file is read back.
  - `packageAt_of_packageWords`: a package is found with all its files.
-/

import PackageIndex.Proofs.Fallible
import PackageIndex.Proofs.Index.Holds
import PackageIndex.Proofs.Index.Located
import PackageIndex.Proofs.Index.Writing

namespace PackageIndex

open Encoding Fallible

/-! ## Items of lists -/

def LineWords (t : StringTable) (line : String) (ws : List UInt32) : Prop := ∃ w, ws = [w] ∧ t.get w = .ok line

def PositionWords (t : StringTable) (p : Position) (ws : List UInt32) : Prop :=
  ∃ filename, ws = [filename, p.offset, p.line, p.column] ∧ t.get filename = .ok p.filename

def ImportWords (t : StringTable) (i : Import) (ws : List UInt32) : Prop :=
  ∃ path doc position, ws = path :: doc :: position ∧ t.get path = .ok i.path ∧ t.get doc = .ok i.doc ∧
    PositionWords t i.position position

def EmbedWords (t : StringTable) (e : Embed) (ws : List UInt32) : Prop :=
  ∃ pattern position, ws = pattern :: position ∧ t.get pattern = .ok e.pattern ∧ PositionWords t e.position position

theorem ensures_line (line : String) : Ensures (do return [← ref line]) fun t => LineWords t line :=
  (ensures_ref line).bind fun w => ensures_pure fun _ hw => ⟨w, rfl, hw⟩

theorem ensures_position (p : Position) : Ensures (positionWords p) fun t => PositionWords t p :=
  (ensures_ref p.filename).bind fun w => ensures_pure fun _ hw => ⟨w, rfl, hw⟩

theorem ensures_import (i : Import) : Ensures (importWords i) fun t => ImportWords t i :=
  (ensures_ref i.path).bind fun path => (ensures_ref i.doc).bind fun doc => (ensures_position i.position).bind fun ws =>
    ensures_pure fun _ hp hd hi => ⟨path, doc, ws, rfl, hi, hd, hp⟩

theorem ensures_embed (e : Embed) : Ensures (embedWords e) fun t => EmbedWords t e :=
  (ensures_ref e.pattern).bind fun pattern => (ensures_position e.position).bind fun ws =>
    ensures_pure fun _ hp he => ⟨pattern, ws, rfl, he, hp⟩

/-! ## Reading items -/

theorem length_flatten {α : Type} {R : α → List UInt32 → Prop} {size : Nat} (hR : ∀ a ws, R a ws → ws.length = size)
    {l : List α} {items : List (List UInt32)} (h : List.Forall₂ R l items) :
    items.flatten.length = l.length * size := by
  induction h with
  | nil => rw [List.length_nil, Nat.zero_mul]; rfl
  | cons ha _ ih =>
    rw [List.flatten_cons, List.length_append, ih, hR _ _ ha, List.length_cons, Nat.succ_mul, Nat.add_comm]

theorem mapM_get_of_lineWords {t : StringTable} {l : List String} {items : List (List UInt32)}
    (h : List.Forall₂ (LineWords t) l items) : items.flatten.mapM t.get = .ok l := by
  induction h with
  | nil => rfl
  | cons ha _ ih =>
    obtain ⟨w, rfl, hw⟩ := ha
    rw [List.flatten_cons, List.singleton_append, List.mapM_cons, hw, ih]
    rfl

theorem importsOfWords_of_importWords {x : OpenIndex} {l : List Import} {items : List (List UInt32)}
    (h : List.Forall₂ (ImportWords x.strings) l items) : x.importsOfWords items.flatten = .ok l := by
  induction h with
  | nil => rfl
  | cons ha _ ih =>
    obtain ⟨path, doc, _, rfl, hpath, hdoc, filename, rfl, hfilename⟩ := ha
    simp only [List.flatten_cons, List.cons_append, List.nil_append, OpenIndex.importsOfWords, hpath, hdoc,
      hfilename, ih]
    rfl

theorem embedsOfWords_of_embedWords {x : OpenIndex} {l : List Embed} {items : List (List UInt32)}
    (h : List.Forall₂ (EmbedWords x.strings) l items) : x.embedsOfWords items.flatten = .ok l := by
  induction h with
  | nil => rfl
  | cons ha _ ih =>
    obtain ⟨pattern, _, rfl, hpattern, filename, rfl, hfilename⟩ := ha
    simp only [List.flatten_cons, List.cons_append, List.nil_append, OpenIndex.embedsOfWords, hpattern, hfilename, ih]
    rfl

/-- A counted list as it is read: its items, and the address behind them. -/
theorem list_of_listWords {α : Type} {R : α → List UInt32 → Prop} {size : Nat} (hR : ∀ a ws, R a ws → ws.length = size)
    {x : OpenIndex} (hx : FitsWord x.tableOffset) {a : Nat} {l : List α} {ws : List UInt32} (hl : ListWords R l ws)
    (h : x.Holds a ws) :
    ∃ items, x.list a size = .ok items.flatten ∧ x.afterList a size = .ok (a + 4 * ws.length) ∧
      List.Forall₂ R l items := by
  obtain ⟨n, items, rfl, hn, hitems⟩ := hl
  have hlen : n.toNat * size = items.flatten.length := by rw [hn, length_flatten hR hitems]
  exact ⟨items, OpenIndex.list_of_holds hx h hlen, OpenIndex.afterList_of_holds hx h hlen, hitems⟩

theorem length_lineWords {t : StringTable} (line : String) (ws : List UInt32) (h : LineWords t line ws) :
    ws.length = 1 := by
  obtain ⟨w, rfl, -⟩ := h
  rfl

theorem length_importWords {t : StringTable} (i : Import) (ws : List UInt32) (h : ImportWords t i ws) :
    ws.length = 6 := by
  obtain ⟨_, _, _, rfl, _, _, _, rfl, _⟩ := h
  rfl

theorem length_embedWords {t : StringTable} (e : Embed) (ws : List UInt32) (h : EmbedWords t e ws) :
    ws.length = 5 := by
  obtain ⟨_, _, rfl, _, _, rfl, _⟩ := h
  rfl

/-! ## Files -/

/-- The words of a file, wherever they stand. -/
inductive FileWords (t : StringTable) (f : FileRecord) : List UInt32 → Prop
  | mk {error parseError synopsis name pkgName importComment goBuild : UInt32}
    {plusBuild imports embeds : List UInt32} :
    t.get error = .ok f.error → t.get parseError = .ok f.parseError → t.get synopsis = .ok f.synopsis →
    t.get name = .ok f.name → t.get pkgName = .ok f.pkgName → t.get importComment = .ok f.importComment →
    t.get goBuild = .ok f.goBuild → ListWords (LineWords t) f.plusBuild plusBuild →
    ListWords (ImportWords t) f.imports imports → ListWords (EmbedWords t) f.flatEmbeds embeds →
    FileWords t f ([error, parseError, synopsis, name, pkgName, boolWord f.ignoreFile, boolWord f.binaryOnly,
      importComment, f.importCommentLine, goBuild] ++ plusBuild ++ imports ++ embeds)

theorem ensures_file (f : FileRecord) : Ensures (fileWords f) fun t => FileWords t f :=
  (ensures_ref f.error).bind fun _ => (ensures_ref f.parseError).bind fun _ => (ensures_ref f.synopsis).bind fun _ =>
  (ensures_ref f.name).bind fun _ => (ensures_ref f.pkgName).bind fun _ => (ensures_ref f.importComment).bind fun _ =>
  (ensures_ref f.goBuild).bind fun _ => (ensures_listWords ensures_line f.plusBuild).bind fun _ =>
  (ensures_listWords ensures_import f.imports).bind fun _ =>
  (ensures_listWords ensures_embed f.flatEmbeds).bind fun _ =>
  ensures_pure fun _ he hi hl hg hc hk hn hs hp h => .mk h hp hs hn hk hc hg hl hi he

theorem OpenIndex.string_of_get {x : OpenIndex} {a : Nat} {w : UInt32} {s : String} (hw : x.word a = .ok w)
    (h : x.strings.get w = .ok s) : x.string a = .ok s := (string_of_word hw).trans h

theorem OpenIndex.bool_of_boolWord {x : OpenIndex} {a : Nat} {b : Bool} (hw : x.word a = .ok (boolWord b)) :
    x.bool a = .ok b := by
  unfold OpenIndex.bool
  rw [hw]
  cases b <;> rfl

/-- The fixed part of a file and the counts of its lists are eleven words. -/
theorem fileAt_of_fileWords {x : OpenIndex} {a : Nat} {f : FileRecord} {ws : List UInt32} (h : FileWords x.strings f ws)
    (ha : x.Holds a ws) : x.fileAt a = .ok { index := x, offset := a } := by
  obtain ⟨_, _, _, _, _, _, _, ⟨n, items, rfl, _⟩, _, _⟩ := h
  have hle := ha.1
  simp only [List.length_append, List.length_cons, List.length_nil] at hle
  unfold OpenIndex.fileAt
  rw [if_pos (by omega)]
  rfl

/-- Each list is found where the one before it ends. -/
theorem lists_of_listWords {x : OpenIndex} (hx : FitsWord x.tableOffset) {a : Nat} {f : FileRecord}
    {plusBuild imports embeds : List UInt32} (hplus : ListWords (LineWords x.strings) f.plusBuild plusBuild)
    (himports : ListWords (ImportWords x.strings) f.imports imports)
    (hembeds : ListWords (EmbedWords x.strings) f.flatEmbeds embeds)
    (h : x.Holds (a + 40) (plusBuild ++ (imports ++ embeds))) :
    FileEntry.plusBuild { index := x, offset := a } = .ok f.plusBuild ∧ x.importsAt a = .ok f.imports ∧
      x.embedsAt a = .ok f.flatEmbeds := by
  obtain ⟨hL, h⟩ := OpenIndex.holds_append h
  obtain ⟨hI, hE⟩ := OpenIndex.holds_append h
  obtain ⟨lines, hlines, hstart, hfor⟩ := list_of_listWords length_lineWords hx hplus hL
  obtain ⟨is, his, hnext, hforI⟩ := list_of_listWords length_importWords hx himports hI
  obtain ⟨es, hes, -, hforE⟩ := list_of_listWords length_embedWords hx hembeds hE
  refine ⟨?_, ?_, ?_⟩
  · unfold FileEntry.plusBuild
    rw [hlines]
    exact mapM_get_of_lineWords hfor
  · unfold OpenIndex.importsAt OpenIndex.importsStart
    rw [hstart]
    show (x.list _ 6 >>= x.importsOfWords) = _
    rw [his]
    exact importsOfWords_of_importWords hforI
  · unfold OpenIndex.embedsAt OpenIndex.embedsStart OpenIndex.importsStart
    rw [hstart]
    show (x.afterList _ 6 >>= fun b => x.list b 5 >>= x.embedsOfWords) = _
    rw [hnext]
    show (x.list _ 5 >>= x.embedsOfWords) = _
    rw [hes]
    exact embedsOfWords_of_embedWords hforE

/-- A file looks as it did when it was written. -/
theorem view_of_fileWords {x : OpenIndex} (hx : FitsWord x.tableOffset) {a : Nat} {f : FileRecord} {ws : List UInt32}
    (h : FileWords x.strings f ws) (ha : x.Holds a ws) : FileEntry.view { index := x, offset := a } = f.view := by
  obtain ⟨herror, hparse, hsynopsis, hname, hpkg, hcomment, hgo, hplus, himports, hembeds⟩ := h
  rw [List.append_assoc, List.append_assoc] at ha
  obtain ⟨ha, hlists⟩ := OpenIndex.holds_append ha
  obtain ⟨hlines, hI, hE⟩ := lists_of_listWords hx hplus himports hembeds hlists
  obtain ⟨h0, ha⟩ := OpenIndex.holds_cons ha
  obtain ⟨h1, ha⟩ := OpenIndex.holds_cons ha
  obtain ⟨h2, ha⟩ := OpenIndex.holds_cons ha
  obtain ⟨h3, ha⟩ := OpenIndex.holds_cons ha
  obtain ⟨h4, ha⟩ := OpenIndex.holds_cons ha
  obtain ⟨h5, ha⟩ := OpenIndex.holds_cons ha
  obtain ⟨h6, ha⟩ := OpenIndex.holds_cons ha
  obtain ⟨h7, ha⟩ := OpenIndex.holds_cons ha
  obtain ⟨h8, ha⟩ := OpenIndex.holds_cons ha
  obtain ⟨h9, -⟩ := OpenIndex.holds_cons ha
  have hsound := FileEntry.sound_new x a
  unfold FileEntry.view FileRecord.view
  rw [FileEntry.imports_of_sound hsound, FileEntry.embeds_of_sound hsound, hlines]
  rw [FileView.mk.injEq]
  exact ⟨OpenIndex.string_of_get h3 hname, OpenIndex.string_of_get h2 hsynopsis, OpenIndex.string_of_get h4 hpkg,
    OpenIndex.bool_of_boolWord h5, OpenIndex.bool_of_boolWord h6, OpenIndex.string_of_get h9 hgo, rfl,
    OpenIndex.string_of_get h7 hcomment, h8, hI, hE, OpenIndex.string_of_get h0 herror,
    OpenIndex.string_of_get h1 hparse⟩

/-! ## Packages -/

/-- The words of a package at `start`; its files follow the offsets of theirs. -/
inductive PackageWords (t : StringTable) (start : Nat) : List UInt32 → PackageRecord → Prop
  | mk {p : PackageRecord} {error path srcDir dir n : UInt32} {offsets files : List UInt32} :
    t.get error = .ok p.error → t.get path = .ok p.path → t.get srcDir = .ok p.srcDir → t.get dir = .ok p.dir →
    n.toNat = p.files.length →
    Placed (fun _ ws f => FileWords t f ws) (start + 4 * (5 + p.files.length)) p.files offsets files →
    PackageWords t start ([error, path, srcDir, dir, n] ++ offsets ++ files) p

theorem ensures_package (start : Nat) (p : PackageRecord) :
    Ensures (packageWords start p) fun t ws => PackageWords t start ws p :=
  (ensures_ref p.error).bind fun _ => (ensures_ref p.path).bind fun _ => (ensures_ref p.srcDir).bind fun _ =>
  (ensures_ref p.dir).bind fun _ => (ensures_count p.files.length).bind fun _ =>
  (ensures_placed (fun _ f => ensures_file f) p.files (start + 4 * (5 + p.files.length))).bind fun _ =>
  ensures_pure fun _ hfiles hn hdir hsrc hpath herror => .mk herror hpath hsrc hdir hn hfiles

theorem length_of_placed {α : Type} {R : Nat → List UInt32 → α → Prop} {start : Nat} {l : List α}
    {offsets ws : List UInt32} (h : Placed R start l offsets ws) : offsets.length = l.length := by
  induction h with
  | nil => rfl
  | cons _ _ _ ih => rw [List.length_cons, List.length_cons, ih]

/-- Every record stands at its address. -/
theorem holds_of_placed {α : Type} {R : Nat → List UInt32 → α → Prop} {x : OpenIndex} {start : Nat} {l : List α}
    {offsets ws : List UInt32} (h : Placed R start l offsets ws) (hx : x.Holds start ws) :
    List.Forall₂ (fun offset a => ∃ ws, R offset.toNat ws a ∧ x.Holds offset.toNat ws) offsets l := by
  induction h with
  | nil => exact .nil
  | cons hhere ha _ ih =>
    obtain ⟨h1, h2⟩ := OpenIndex.holds_append hx
    rw [← hhere] at ha h1
    exact .cons ⟨_, ha, h1⟩ (ih h2)

/-- The files of a package, found by their addresses. -/
theorem mapM_fileAt_of_placed {x : OpenIndex} (hx : FitsWord x.tableOffset) {offsets : List UInt32}
    {l : List FileRecord}
    (h : List.Forall₂ (fun offset f => ∃ ws, FileWords x.strings f ws ∧ x.Holds (UInt32.toNat offset) ws) offsets l) :
    ∃ es, (offsets.mapM fun offset => x.fileAt offset.toNat) = .ok es ∧
      es.map FileEntry.view = l.map FileRecord.view := by
  induction h with
  | nil => exact ⟨[], rfl, rfl⟩
  | @cons offset f _ _ hf _ ih =>
    obtain ⟨ws, hws, hx'⟩ := hf
    obtain ⟨es, hes, hviews⟩ := ih
    refine ⟨{ index := x, offset := offset.toNat } :: es, ?_, ?_⟩
    · rw [List.mapM_cons, fileAt_of_fileWords hws hx', hes]
      rfl
    · rw [List.map_cons, List.map_cons, view_of_fileWords hx hws hx', hviews]

/-- A package is found where it was placed, and looks as it did. -/
theorem packageAt_of_packageWords {x : OpenIndex} (hx : FitsWord x.tableOffset) {a : Nat} {p : PackageRecord}
    {ws : List UInt32} (h : PackageWords x.strings a ws p) (ha : x.Holds a ws) :
    ∃ e, x.packageAt a = .ok e ∧ e.view = p.view := by
  obtain ⟨herror, hpath, hsrc, hdir, hn, hplaced⟩ := h
  rw [List.append_assoc] at ha
  obtain ⟨hfixed, ha⟩ := OpenIndex.holds_append ha
  obtain ⟨hoffsets, hfiles⟩ := OpenIndex.holds_append ha
  rw [length_of_placed hplaced] at hfiles
  have hfor := holds_of_placed hplaced (by
    rw [Nat.mul_add, ← Nat.add_assoc]
    exact hfiles)
  obtain ⟨es, hes, hviews⟩ := mapM_fileAt_of_placed hx hfor
  have hwords := OpenIndex.words_of_holds hoffsets (n := _) ((length_of_placed hplaced).trans hn.symm)
  refine ⟨⟨p.error, p.path, p.srcDir, p.dir, es⟩, ?_, ?_⟩
  -- the files are read before the strings, so their failure would come first
  · unfold OpenIndex.packageAt
    rw [OpenIndex.words_of_holds hfixed (n := 5) rfl]
    simp only [List.length_cons, List.length_nil] at hwords
    show (x.words (a + 20) _ >>= fun ws => _) = _
    rw [hwords]
    show (List.mapM (fun offset : UInt32 => x.fileAt offset.toNat) _ >>= fun es => _) = _
    rw [hes]
    show (x.strings.get _ >>= fun s => _) = _
    rw [herror, hpath, hsrc, hdir]
    rfl
  · unfold PackageEntry.view PackageRecord.view
    rw [hviews]

/-! ## Modules -/

inductive ModuleWords (t : StringTable) (ps : List PackageRecord) : List UInt32 → Prop
  | mk {n : UInt32} {dirs offsets records : List UInt32} :
    n.toNat = ps.length → List.Forall₂ (fun p w => t.get w = .ok p.dir) ps dirs →
    Placed (PackageWords t) (20 + 4 * (2 * ps.length)) ps offsets records →
    ModuleWords t ps (n :: dirs ++ offsets ++ records)

theorem ensures_module (ps : List PackageRecord) : Ensures (moduleWords ps) fun t => ModuleWords t ps :=
  (ensures_count ps.length).bind fun _ => (Ensures.mapM (fun p => ensures_ref p.dir) ps).bind fun _ =>
  (ensures_placed ensures_package ps (20 + 4 * (2 * ps.length))).bind fun _ =>
  ensures_pure fun _ hplaced hdirs hn => .mk hn hdirs hplaced

end PackageIndex
