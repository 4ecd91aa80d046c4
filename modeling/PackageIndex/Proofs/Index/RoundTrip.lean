/-
  PackageIndex.Proofs.Index.RoundTrip — an index is read back as it was written.

  - `parts_of_indexBytes`: the header, the words and the strings stand where a reader looks.
  - `opens_of_parts`: what is written opens, with each package at its place.
  - `ofModule_read_back`: the packages of a module come back as they stand in the index, in
    the order of their directories.
-/

import Mathlib.Data.List.Nodup
import PackageIndex.Proofs.Index.Opening
import PackageIndex.Proofs.Index.Records
import PackageIndex.Proofs.Record.Embeds
import PackageIndex.Proofs.Text.Bytes

namespace PackageIndex

open Encoding Fallible

/-! ## The bytes -/

/-- The parts of an index: the version, the words of the header and of all records, and the string table. -/
structure Parts (data : Array UInt8) (table : UInt32) (words : List UInt32) (strings : Array UInt8) : Prop where
  version : (data.extract 0 indexVersion.length).toList = indexVersion
  words_eq : wordsAt? data 12 (words.length + 1) = some (table :: words)
  table_eq : table.toNat = 16 + 4 * words.length
  lt_size : table.toNat < data.size
  strings_eq : data.extract table.toNat = strings
  zero : data[table.toNat]? = some 0

theorem parts_of_bytes {table : UInt32} {words : List UInt32} (pool : StringPool)
    (h : table.toNat = 16 + 4 * words.length) :
    Parts (indexVersion ++ bytesOfWords (table :: words) ++ pool.bytes).toArray table words pool.bytes.toArray := by
  have hlength : (indexVersion ++ bytesOfWords (table :: words)).length = table.toNat := by
    rw [List.length_append, length_bytesOfWords, List.length_cons, h, show indexVersion.length = 12 from rfl]
    omega
  refine ⟨?_, wordsAt?_bytesOfWords indexVersion pool.bytes (table :: words), h, ?_, ?_, ?_⟩
  · rw [List.append_assoc]
    simp
  · rw [List.size_toArray, List.length_append, hlength]
    exact Nat.lt_add_of_pos_right (Nat.zero_lt_succ _)
  · rw [← hlength, List.extract_toArray, List.extract_eq_take_drop, List.drop_left, List.take_of_length_le]
    rw [List.size_toArray, List.length_append]
    omega
  · rw [← hlength, List.getElem?_toArray, List.getElem?_append_right (Nat.le_refl _), Nat.sub_self]
    rfl

theorem parts_of_indexBytes {ps : List PackageRecord} {bytes : List UInt8} (h : indexBytes ps = .ok bytes) :
    ∃ table words strings, Parts bytes.toArray table words strings ∧ ModuleWords ⟨strings⟩ ps words := by
  unfold indexBytes at h
  obtain ⟨⟨words, pool⟩, hwords, h⟩ := bind_eq_ok.mp h
  obtain ⟨⟨table, pool'⟩, htable, h⟩ := bind_eq_ok.mp h
  obtain ⟨hpool, -, hmodule⟩ := ensures_module ps _ _ _ StringPool.sound_empty hwords
  obtain ⟨-, -, haddress⟩ := ensures_address _ _ _ _ hpool htable
  have hw := hmodule ⟨pool.bytes.toArray⟩ ⟨[], by rw [List.append_nil]⟩
  have ht := haddress ⟨pool'.bytes.toArray⟩ ⟨[], by rw [List.append_nil]⟩
  simp only at h
  split at h
  · cases h
    exact ⟨table, words, _, parts_of_bytes pool ht, hw⟩
  · cases h

/-! ## The packages -/

/-- The names of the packages, and their addresses. -/
theorem names_of_words {t : StringTable} {ps : List PackageRecord} {dirs : List UInt32}
    (h : List.Forall₂ (fun p w => t.get w = .ok p.dir) ps dirs) (offsets : List UInt32) :
    ((dirs.zip offsets).mapM fun (dir, offset) => do return (← t.get dir, offset.toNat)) =
      .ok ((ps.map (·.dir)).zip (offsets.map UInt32.toNat)) := by
  induction h generalizing offsets with
  | nil => rfl
  | cons hw _ ih =>
    cases offsets with
    | nil => rfl
    | cons offset offsets =>
      rw [List.zip_cons_cons, List.mapM_cons, ih offsets]
      simp only [hw]
      rfl

theorem packages_of_offsets {x : OpenIndex} (hx : FitsWord x.tableOffset) {offsets : List UInt32}
    {ps : List PackageRecord} (h : List.Forall₂ (fun offset p => ∃ ws,
      PackageWords x.strings (UInt32.toNat offset) ws p ∧ x.Holds offset.toNat ws) offsets ps) :
    List.Forall₂ (fun d p => d.1 = p.dir ∧ ∃ e, x.packageAt d.2 = .ok e ∧ e.view = p.view)
      ((ps.map (·.dir)).zip (offsets.map UInt32.toNat)) ps := by
  induction h with
  | nil => exact .nil
  | cons hp _ ih =>
    obtain ⟨ws, hws, hh⟩ := hp
    exact .cons ⟨rfl, packageAt_of_packageWords hx hws hh⟩ ih

/-- What is written opens, with each package at its place. -/
theorem opens_of_parts (openedIn : String) {ps : List PackageRecord} {data strings : Array UInt8} {table : UInt32}
    {words : List UInt32} (h : Parts data table words strings) (hw : ModuleWords ⟨strings⟩ ps words) :
    ∃ x, OpenIndex.ofBytes openedIn data = .ok x ∧
      List.Forall₂ (fun d p => d.1 = p.dir ∧ ∃ e, x.packageAt d.2 = .ok e ∧ e.view = p.view) x.packages ps := by
  obtain @⟨n, dirs, offsets, records, hn, hdirs, hplaced⟩ := hw
  let x : OpenIndex := ⟨openedIn, data, table.toNat, ⟨strings⟩, (ps.map (·.dir)).zip (offsets.map UInt32.toNat)⟩
  have hx : FitsWord x.tableOffset := UInt32.toNat_lt table
  have hcount : dirs.length = n.toNat := hdirs.length_eq.symm.trans hn.symm
  have hoffsets : offsets.length = n.toNat := (length_of_placed hplaced).trans hn.symm
  have hall := h.words_eq
  have htable := h.table_eq
  simp only [List.length_cons, List.length_append, List.cons_append] at htable hall
  obtain ⟨h12, h16⟩ := wordsAt?_cons hall
  obtain ⟨h16, h20⟩ := wordsAt?_cons h16
  have hholds : x.Holds 20 (dirs ++ (offsets ++ records)) := by
    rw [← List.append_assoc]
    refine ⟨?_, ?_⟩
    · simp only [List.length_append]
      show _ ≤ table.toNat
      omega
    · rw [List.length_append, List.length_append]
      exact h20
  obtain ⟨hnames, hrest⟩ := OpenIndex.holds_append hholds
  obtain ⟨haddresses, hrecords⟩ := OpenIndex.holds_append hrest
  have hheader : OpenIndex.Header data table n := ⟨h.version, h12, h16, by omega, h.lt_size, h.zero⟩
  have hdirsAt : wordsAt? data 20 n.toNat = some dirs := hcount ▸ hnames.2
  have hoffsetsAt : wordsAt? data (20 + 4 * n.toNat) n.toNat = some offsets := by
    have := haddresses.2
    rw [hcount, hoffsets] at this
    exact this
  have hpackages : OpenIndex.packageTable data table n = .ok x.packages := by
    unfold OpenIndex.packageTable
    rw [h.strings_eq, hdirsAt, hoffsetsAt]
    exact names_of_words hdirs offsets
  refine ⟨x, OpenIndex.ofBytes_eq_ok.mpr ⟨table, n, _, hheader, hpackages, ?_⟩, ?_⟩
  · rw [h.strings_eq]
  · have hstart : 20 + 4 * (2 * ps.length) = 20 + 4 * dirs.length + 4 * offsets.length := by omega
    rw [hstart] at hplaced
    exact packages_of_offsets hx (holds_of_placed hplaced hrecords)

/-! ## Records and their views -/

/-- A record in memory is read as it is, if each of its patterns stands somewhere. -/
theorem FileRecord.read_view (f : FileRecord) (h : ∀ e ∈ f.embeds.entries, e.2 ≠ []) : f.view.read = .ok f := by
  show Except.ok { f with embeds := embedsByPattern f.flatEmbeds } = _
  rw [embedsByPattern_flatEmbeds f h]

theorem PackageRecord.read_view (p : PackageRecord) (h : ∀ f ∈ p.files, ∀ e ∈ f.embeds.entries, e.2 ≠ []) :
    p.view.read = .ok p := by
  have hfiles : (p.files.map FileRecord.view).mapM FileView.read = .ok p.files := by
    rw [mapM_eq_ok, List.forall₂_map_left_iff, List.forall₂_same]
    exact fun f hf => f.read_view (h f hf)
  unfold PackageView.read PackageRecord.view
  rw [hfiles]
  rfl

/-! ## Modules -/

def PackageRecord.relative? (moduleDir : String) (p : PackageRecord) : Option PackageRecord :=
  (Path.relative? moduleDir p.dir).map fun dir => { p with dir }

theorem relativeTo_eq_ok {moduleDir : String} {p q : PackageRecord} (h : p.relativeTo moduleDir = .ok q) :
    p.relative? moduleDir = some q := by
  unfold PackageRecord.relativeTo at h
  unfold PackageRecord.relative?
  cases hdir : Path.relative? moduleDir p.dir with
  | none => rw [hdir] at h; cases h
  | some dir => rw [hdir] at h; cases h; rfl

theorem map_relative? {moduleDir : String} {ps qs : List PackageRecord}
    (h : List.Forall₂ (fun p q => p.relativeTo moduleDir = .ok q) ps qs) :
    ps.map (·.relative? moduleDir) = qs.map some := by
  induction h with
  | nil => rfl
  | cons hp _ ih => rw [List.map_cons, List.map_cons, ih, relativeTo_eq_ok hp]

/-- Packages that can be told by their paths below the root are written in the order of these paths. -/
theorem ofModule_eq {moduleDir : String} {ps qs : List PackageRecord}
    (hqs : ps.mapM (·.relativeTo moduleDir) = .ok qs) :
    ofModule moduleDir ps =
      ((indexBytes (sortedByDir qs)).mapError .format).map fun bytes => (bytes, sortedByDir qs) := by
  unfold ofModule
  rw [hqs]
  rfl

theorem written_of_ofModule {moduleDir : String} {ps written : List PackageRecord} {bytes : List UInt8}
    (h : ofModule moduleDir ps = .ok (bytes, written)) :
    indexBytes written = .ok bytes ∧ written.Pairwise (fun p q => p.dir ≤ q.dir) ∧
      (written.map some).Perm (ps.map (·.relative? moduleDir)) := by
  unfold ofModule at h
  obtain ⟨qs, hqs, h⟩ := bind_eq_ok.mp h
  obtain ⟨bs, hbs, h⟩ := bind_eq_ok.mp h
  cases h
  refine ⟨mapError_eq_ok.mp hbs, Utf8.pairwise_mergeSort_key PackageRecord.dir qs, ?_⟩
  rw [map_relative? (mapM_eq_ok.mp hqs)]
  exact (List.mergeSort_perm qs _).map some

section

variable {moduleDir : String} {ps written : List PackageRecord}
  (h : (written.map some).Perm (ps.map (·.relative? moduleDir)))
include h

theorem mem_written {q : PackageRecord} : q ∈ written ↔ ∃ p ∈ ps, p.relative? moduleDir = some q := by
  have hmem : q ∈ written ↔ some q ∈ written.map some := by simp
  rw [hmem, h.mem_iff, List.mem_map]

theorem dirs_written :
    ((written.map (·.dir)).map some).Perm (ps.map fun p => Path.relative? moduleDir p.dir) := by
  have hdirs := h.map (Option.map (·.dir))
  rw [List.map_map, List.map_map] at hdirs
  rw [List.map_map]
  refine hdirs.trans (.of_eq (List.map_congr_left fun p _ => ?_))
  show ((Path.relative? moduleDir p.dir).map _).map _ = _
  rw [Option.map_map]
  exact Option.map_id'

end

/-- A module's index opens, and each of its packages is found under its directory. -/
theorem opens_of_ofModule {moduleDir : String} (openedIn : String) {ps written : List PackageRecord}
    {bytes : List UInt8} (h : ofModule moduleDir ps = .ok (bytes, written))
    (hdistinct : (ps.map fun p => Path.relative? moduleDir p.dir).Nodup) :
    ∃ x, OpenIndex.ofBytes openedIn bytes.toArray = .ok x ∧ x.dirs = written.map (·.dir) ∧ x.dirs.Nodup ∧
      ∀ p ∈ written, ∃ e, x.package? p.dir = .ok (some e) ∧ e.view = p.view := by
  obtain ⟨hbytes, hsorted, hperm⟩ := written_of_ofModule h
  obtain ⟨table, words, strings, hparts, hwords⟩ := parts_of_indexBytes hbytes
  obtain ⟨x, hx, hfor⟩ := opens_of_parts openedIn hparts hwords
  have hdirs : x.dirs = written.map (·.dir) := by
    rw [← List.forall₂_eq_eq_eq, OpenIndex.dirs, List.forall₂_map_left_iff, List.forall₂_map_right_iff]
    exact hfor.imp fun _ _ hd => hd.1
  have hnodup : x.dirs.Nodup := by
    rw [hdirs]
    have hsome := (dirs_written hperm).nodup_iff.mpr hdistinct
    exact List.Nodup.of_map some hsome
  refine ⟨x, hx, hdirs, hnodup, fun p hp => ?_⟩
  obtain ⟨⟨dir, a⟩, hmem, rfl, e, he, hview⟩ := exists_of_forall₂ hfor hp
  refine ⟨e, ?_, hview⟩
  rw [OpenIndex.package?_of_mem hnodup hmem, he]
  rfl

def sampleEmbeds : SortedMap (List Position) := ⟨[("*.txt", [{ filename := "b.go", line := 3 }])], by simp⟩

def samplePackages : List PackageRecord := [
  { path := "m/b", srcDir := "/m/b", dir := "/m/b", files := [
      { name := "b.go", pkgName := "b", plusBuild := ["// +build x"], embeds := sampleEmbeds }] },
  { path := "m", srcDir := "/m", dir := "/m", files := [
      { name := "a.go", pkgName := "a", imports := [{ path := "fmt" }] }, { name := "c.h" }] }]

def sampleWritten : List PackageRecord :=
  (samplePackages.map fun p => { p with dir := if p.dir = "/m" then "" else "b" }).reverse

theorem ofModule_samplePackages : ∃ bytes, ofModule "/m" samplePackages = .ok (bytes, sampleWritten) := by
  have hrel : samplePackages.mapM (·.relativeTo "/m") = .ok sampleWritten.reverse := rfl
  have hsort : sortedByDir sampleWritten.reverse = sampleWritten := by
    simp [sortedByDir, sampleWritten, samplePackages, List.mergeSort, List.MergeSort.Internal.splitInTwo]
  have hok : (indexBytes sampleWritten).isOk = true := by decide +kernel
  cases hbytes : indexBytes sampleWritten with
  | error e => rw [hbytes] at hok; cases hok
  | ok bytes =>
    refine ⟨bytes, bind_eq_ok.mpr ⟨_, hrel, bind_eq_ok.mpr ⟨bytes, ?_, ?_⟩⟩⟩
    · rw [hsort, hbytes]
      rfl
    · rw [hsort]
      rfl

/-- The index of a module opens, its directories are those of the module's packages in the order of
their bytes, and every package is read back with all its fields. -/
theorem ofModule_read_back {moduleDir : String} (openedIn : String) {ps written : List PackageRecord}
    {bytes : List UInt8} (h : ofModule moduleDir ps = .ok (bytes, written))
    (hdistinct : (ps.map fun p => Path.relative? moduleDir p.dir).Nodup)
    (hembeds : ∀ p ∈ ps, ∀ f ∈ p.files, ∀ e ∈ f.embeds.entries, e.2 ≠ []) :
    ∃ x, OpenIndex.ofBytes openedIn bytes.toArray = .ok x ∧
      (x.dirs.map some).Perm (ps.map fun p => Path.relative? moduleDir p.dir) ∧
      (x.dirs.map Utf8.ofString).Pairwise (· < ·) ∧
      (written.map some).Perm (ps.map (·.relative? moduleDir)) ∧
      ∀ p ∈ written, ∃ e, x.package? p.dir = .ok (some e) ∧ e.view.read = .ok p := by
  obtain ⟨x, hx, hdirs, hnodup, hfound⟩ := opens_of_ofModule openedIn h hdistinct
  obtain ⟨-, hsorted, hperm⟩ := written_of_ofModule h
  have hle : x.dirs.Pairwise (· ≤ ·) := by
    rw [hdirs, List.pairwise_map]
    exact hsorted
  refine ⟨x, hx, hdirs ▸ dirs_written hperm, ?_, hperm, fun p hp => ?_⟩
  · rw [List.pairwise_map]
    refine List.Pairwise.imp₂ (fun s t hst hne => ?_) hle hnodup
    exact (Utf8.ofString_lt s t).mpr (Std.lt_of_le_of_ne hst hne)
  · obtain ⟨e, he, hview⟩ := hfound p hp
    obtain ⟨q, hq, hrel⟩ := (mem_written hperm).mp hp
    obtain ⟨dir, -, rfl⟩ := Option.map_eq_some_iff.mp hrel
    refine ⟨e, he, ?_⟩
    rw [hview]
    exact PackageRecord.read_view _ (hembeds q hq)

theorem samplePackages_read_back : ∃ bytes x, ofModule "/m" samplePackages = .ok (bytes, sampleWritten) ∧
    OpenIndex.ofBytes "/m" bytes.toArray = .ok x ∧
    ∀ p ∈ sampleWritten, ∃ e, x.package? p.dir = .ok (some e) ∧ e.view.read = .ok p := by
  obtain ⟨bytes, h⟩ := ofModule_samplePackages
  obtain ⟨x, hx, -, -, -, hread⟩ := ofModule_read_back "/m" h (by decide +kernel) (by decide +kernel)
  exact ⟨bytes, x, h, hx, hread⟩

end PackageIndex
