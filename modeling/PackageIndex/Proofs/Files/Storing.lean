/-
  PackageIndex.Proofs.Files.Storing — which modules can be written as an index.

  A text with a zero character has no place in an index, and one is enough to keep a whole
  module out of it. No path leads to files through a zero, so it can only come from what a
  file holds: from a zero byte of its own, or from an escape in a literal that spells one.

  - `nulFree_fileRecord`: a file that spells no zero.
  - `nulFree_textsOf_iff`: a module's packages have no zero but in the records of their files.
-/

import PackageIndex.Proofs.Files.Survey
import PackageIndex.Proofs.Files.Writing
import PackageIndex.Proofs.Index.RoundTrip
import PackageIndex.Proofs.Index.Size
import PackageIndex.Proofs.Source.Header

namespace PackageIndex.Files

open Fallible

/-! ## Files -/

theorem addHeader_name (f : FileRecord) (h : Source.Header) : (f.addHeader h).name = f.name := by
  unfold FileRecord.addHeader
  simp only
  split <;> rfl

@[simp] theorem fileRecord_name (fs : Files) (dir : ByteString) (name : String) : (fs.fileRecord dir name).name = name := by
  unfold fileRecord
  simp only
  split
  · rfl
  · split
    · rfl
    · rfl
    · split
      · rfl
      · split
        · rfl
        · exact addHeader_name _ _

theorem nulFree_addHeader {name : String} (hname : NulFree name) {h : Source.Header} (hh : h.Plain) :
    ∀ s ∈ (({ name } : FileRecord).addHeader h).texts, NulFree s := by
  rw [forall_mem_fileTexts]
  unfold FileRecord.addHeader
  simp only
  split
  · exact ⟨⟨nulFree_empty, nulFree_empty, nulFree_empty, hname, nulFree_empty, nulFree_empty, hh.goBuild⟩, hh.plusBuild,
      by simp, by simp [flatEmbeds_eq_nil]⟩
  · refine ⟨⟨nulFree_empty, ?_, hh.synopsis, hname, hh.packageName, ?_, hh.goBuild⟩, hh.plusBuild, hh.imports, ?_⟩
    · cases he : h.parseError with
      | none => exact nulFree_empty
      | some message => exact hh.parseError message he
    · simp only
      split
      · exact nulFree_empty
      · exact hh.importComment
    · exact fun e he => hh.embeds e (mem_of_mem_flatEmbeds rfl he)

theorem nulFree_faultMessage (fault : IoFault) : NulFree fault.message := by
  cases fault <;> decide

/-- What is read of a file for its record spells no zero. Hidden files, objects and files of other kinds are not read. -/
def ReadsPlain (fs : Files) (dir : ByteString) (name : String) : Prop :=
  isHiddenName name = false → ∀ l, Language.ofName? name = some l → l ≠ .object →
    ∀ content, fs.read (dir.join name) = .ok content → Source.PlainBytes content

/-- The record of a file that spells no zero has none. -/
theorem nulFree_fileRecord {fs : Files} {dir : ByteString} {name : String} (hdir : 0 ∉ dir.bytes) (hname : NulFree name)
    (hcontent : fs.ReadsPlain dir name) : ∀ s ∈ (fs.fileRecord dir name).texts, NulFree s := by
  have hbare (f : FileRecord) (hf : f = { name, ignoreFile := f.ignoreFile, error := f.error }) (he : NulFree f.error) :
      ∀ s ∈ f.texts, NulFree s := by
    rw [forall_mem_fileTexts, hf]
    exact ⟨⟨he, nulFree_empty, nulFree_empty, hname, nulFree_empty, nulFree_empty, nulFree_empty⟩, by simp, by simp,
      by simp [flatEmbeds_eq_nil]⟩
  have hpath : NulFree (dir.join name).lossy :=
    ByteString.nulFree_lossy (ByteString.zero_not_mem_join hdir fun h => hname ((Utf8.zero_mem_ofString _).mp h))
  unfold fileRecord
  simp only
  split
  · exact hbare _ rfl nulFree_empty
  · rename_i hhidden
    split
    · exact hbare _ rfl nulFree_empty
    · exact hbare _ rfl nulFree_empty
    · rename_i l hobject hl
      have hread := hcontent (by simpa using hhidden) l hl hobject
      split
      · refine hbare _ rfl ?_
        simp only [nulFree_append]
        exact ⟨⟨⟨by decide, hpath⟩, by decide⟩, nulFree_faultMessage _⟩
      · rename_i content hcontent
        split
        · rename_i e hscan
          exact hbare _ rfl (Source.nulFree_of_scan_error hname hscan)
        · rename_i h hscan
          exact nulFree_addHeader hname (Source.plain_scan hpath (hread content hcontent) hscan)

/-! ## Packages -/

theorem nulFree_packageRecord (fs : Files) {dir : ByteString} (hdir : 0 ∉ dir.bytes) :
    ∀ s ∈ [(fs.packageRecord dir).error, (fs.packageRecord dir).path, (fs.packageRecord dir).srcDir], NulFree s := by
  have hpath : NulFree "." := by decide
  have herror : NulFree "cannot find package \".\" in:\n\t" := by decide
  unfold packageRecord
  split <;> simp [nulFree_empty, hpath, ByteString.nulFree_lossy hdir, herror]

/-- A file of a directory's record is that of an entry of the directory. -/
theorem mem_files_packageRecord {fs : Files} {dir : ByteString} {f : FileRecord}
    (hf : f ∈ (fs.packageRecord dir).files) : Path.IsName f.name ∧ f = fs.fileRecord dir f.name := by
  unfold packageRecord at hf
  split at hf
  · rename_i entries hfind
    obtain ⟨e, he, rfl⟩ := List.mem_map.mp hf
    have hname := ((Tree.isProper_dir.mp (isProper_of_find hfind)).2 e (List.mem_filter.mp he).1).1
    rw [fileRecord_name]
    exact ⟨ByteString.isName_iff.mp hname.lossy, rfl⟩
  · cases hf

theorem ofModule_eq_ok {root : String} {ps qs written : List PackageRecord} {bytes : List UInt8}
    (hqs : ps.mapM (·.relativeTo root) = .ok qs) (h : Encoding.ofModule root ps = .ok (bytes, written)) :
    Encoding.indexBytes (sortedByDir qs) = .ok bytes := by
  rw [ofModule_eq hqs] at h
  obtain ⟨bytes', hbytes, h⟩ := map_eq_ok.mp h
  cases h
  exact mapError_eq_ok.mp hbytes

/-! ## Modules -/

section

variable {fs : Files} {root : ByteString} {m : ModuleRecord} (hroot : root.isAbsolute = false)
  (hup : (".." : ByteString) ∉ root.pieces) (hm : fs.moduleRecord root = .ok m)
include hroot hup hm

/-- Below a relative root every package has a path that can be written. -/
theorem relativeTo_of_moduleRecord {p : PackageRecord} (hp : p ∈ m.packages) :
    ∃ d ∈ fs.walk "" root, p = fs.packageRecord d.2 ∧ 0 ∉ d.2.bytes ∧
      ∃ dir, p.relativeTo root.lossy = .ok { p with dir } ∧ NulFree dir := by
  obtain ⟨⟨rel, p'⟩, hmem, rfl⟩ := List.mem_map.mp hp
  obtain ⟨names, hwalked, -, rfl⟩ := mem_moduleRecord hm hmem
  obtain ⟨entries, hfind, -⟩ := moduleRecord_eq_ok.mp hm
  obtain ⟨r, hr, -⟩ := find_eq_ok.mp hfind
  obtain ⟨hne, hzero, -⟩ := follow_of_locate hr
  have hnames : ∀ n ∈ names.map ByteString.ofString, n.IsName :=
    List.forall_mem_map.mpr fun n hn => ByteString.isName_iff.mpr (hwalked.isName n hn)
  have hstays := ByteString.StaysBelow.foldl ⟨hne, hroot, hup, hzero⟩ hnames
  obtain ⟨dir, hdir, hnul⟩ := hstays.exists_relative? root.lossy
  refine ⟨_, mem_walk.mpr ⟨names, hwalked, rfl⟩, rfl, hstays.no_nul, dir, ?_, hnul⟩
  unfold PackageRecord.relativeTo
  rw [packageRecord_dir, hdir]

/-- The texts of packages hold no zero, told by their paths below the root, if those of their files hold none. -/
theorem nulFree_textsOf_iff {qs : List PackageRecord} (hqs : m.packages.mapM (·.relativeTo root.lossy) = .ok qs) :
    (∀ s ∈ textsOf (sortedByDir qs), NulFree s) ↔ ∀ p ∈ m.packages, ∀ f ∈ p.files, ∀ s ∈ f.texts, NulFree s := by
  have hperm : ((sortedByDir qs).map some).Perm (m.packages.map (·.relative? root.lossy)) := by
    rw [map_relative? (mapM_eq_ok.mp hqs)]
    exact (List.mergeSort_perm qs _).map some
  constructor
  · intro h p hp f hf s hs
    obtain ⟨-, -, -, -, dir, hdir, -⟩ := relativeTo_of_moduleRecord hroot hup hm hp
    have hmem := (mem_written hperm).mpr ⟨p, hp, relativeTo_eq_ok hdir⟩
    have htexts : s ∈ ({ p with dir } : PackageRecord).texts :=
      List.mem_append_right _ (List.mem_flatMap.mpr ⟨f, hf, hs⟩)
    exact h s (List.mem_append_right _ (List.mem_flatMap.mpr ⟨_, hmem, htexts⟩))
  · intro h
    have hpackage : ∀ q ∈ sortedByDir qs, NulFree q.dir ∧ ∀ s ∈ q.texts, NulFree s := by
      intro q hq
      obtain ⟨p, hp, hrel⟩ := (mem_written hperm).mp hq
      obtain ⟨d, -, hrecord, hzero, dir, hdir, hnul⟩ := relativeTo_of_moduleRecord hroot hup hm hp
      have htexts := nulFree_packageRecord fs hzero
      rw [← hrecord] at htexts
      rw [relativeTo_eq_ok hdir] at hrel
      cases hrel
      refine ⟨hnul, List.forall_mem_append.mpr ⟨?_, List.forall_mem_flatMap.mpr (h p hp)⟩⟩
      simp only [List.forall_mem_cons] at htexts ⊢
      exact ⟨htexts.1, htexts.2.1, htexts.2.2.1, hnul, by simp⟩
    refine List.forall_mem_append.mpr ⟨?_, List.forall_mem_flatMap.mpr fun q hq => (hpackage q hq).2⟩
    intro s hs
    obtain ⟨q, hq, rfl⟩ := List.mem_map.mp hs
    exact (hpackage q hq).1

end

/-- Below a relative root that does not lead up, a module that fits is written exactly if no text of
its files' records holds a zero; so it is if no file that was read spells one. -/
theorem stored_iff_nulFree {fs : Files} {root : ByteString} {m : ModuleRecord} (hroot : root.isAbsolute = false)
    (hup : (".." : ByteString) ∉ root.pieces) (hm : fs.moduleRecord root = .ok m) :
    ∃ ps, m.packages.mapM (·.relativeTo root.lossy) = .ok ps ∧ (FitsWord (indexSize (sortedByDir ps)) →
      ((∃ r, Encoding.ofModule root.lossy m.packages = .ok r) ↔
        ∀ p ∈ m.packages, ∀ f ∈ p.files, ∀ s ∈ f.texts, NulFree s) ∧
      (∀ bytes written, Encoding.ofModule root.lossy m.packages = .ok (bytes, written) →
        bytes.length = indexSize (sortedByDir ps)) ∧
      ((∀ d ∈ fs.walk "" root, ∀ f ∈ (fs.packageRecord d.2).files, fs.ReadsPlain d.2 f.name) →
        ∃ r, Encoding.ofModule root.lossy m.packages = .ok r)) := by
  have hrelative : ∀ p ∈ m.packages, ∃ q, p.relativeTo root.lossy = .ok q := by
    intro p hp
    obtain ⟨-, -, -, -, dir, hdir, -⟩ := relativeTo_of_moduleRecord hroot hup hm hp
    exact ⟨_, hdir⟩
  obtain ⟨ps, hps⟩ := exists_mapM hrelative
  refine ⟨ps, hps, fun hsize => ?_⟩
  have htexts := nulFree_textsOf_iff hroot hup hm hps
  have hwritten : (∃ r, Encoding.ofModule root.lossy m.packages = .ok r) ↔
      ∀ p ∈ m.packages, ∀ f ∈ p.files, ∀ s ∈ f.texts, NulFree s := by
    rw [← htexts]
    constructor
    · rintro ⟨⟨bytes, written⟩, h⟩
      exact Encoding.nulFree_of_indexBytes hsize (ofModule_eq_ok hps h)
    · intro hnul
      obtain ⟨bytes, hbytes, -⟩ := Encoding.indexBytes_of_nulFree hsize hnul
      exact ⟨(bytes, sortedByDir ps), by rw [ofModule_eq hps, hbytes]; rfl⟩
  refine ⟨hwritten, fun bytes written h => ?_, fun hplain => ?_⟩
  · have hbytes := ofModule_eq_ok hps h
    obtain ⟨bytes', hbytes', hlength⟩ :=
      Encoding.indexBytes_of_nulFree hsize (Encoding.nulFree_of_indexBytes hsize hbytes)
    rw [hbytes] at hbytes'
    cases hbytes'
    exact hlength
  · rw [hwritten]
    intro p hp f hf
    obtain ⟨d, hd, rfl, hzero, -⟩ := relativeTo_of_moduleRecord hroot hup hm hp
    obtain ⟨hname, hrecord⟩ := mem_files_packageRecord hf
    rw [hrecord]
    exact nulFree_fileRecord hzero hname.no_nul (hplain d hd f hf)

/-! ## A module with one file -/

def moduleOf (content : List UInt8) : Files := { root := .dir [("m", .dir [("a.go", .file content)])], proper := rfl }

def recordOf (root : String) (header : Source.Header) : PackageRecord where
  path := "."
  srcDir := root
  dir := root
  files := [({ name := "a.go" } : FileRecord).addHeader header]

section

variable (content : List UInt8) {root : String} (h : root = "m" ∨ root = "/m")
include h

theorem moduleOf_find : (moduleOf content).find root = .ok (.dir [("a.go", .file content)]) ∧
    (moduleOf content).read ((root : ByteString).join "a.go") = .ok content := by
  have hm (rest : List ByteString) : follow (moduleOf content).root maxLinks [] (("m" : ByteString) :: rest) =
      follow (moduleOf content).root maxLinks ["m"] rest :=
    follow_entry (k := .dir) (by decide) rfl (by simp)
  have hslash (rest : List ByteString) : follow (moduleOf content).root maxLinks [] (("" : ByteString) :: rest) =
      follow (moduleOf content).root maxLinks [] rest :=
    follow_dot rfl (Or.inl rfl)
  have hend : follow (moduleOf content).root maxLinks ["m"] [] = .ok ⟨["m"], maxLinks⟩ := by rw [follow]
  have hlocate : (moduleOf content).locate root = .ok ⟨["m"], maxLinks⟩ := by
    rcases h with rfl | rfl
    · have hpieces : ("m" : ByteString).pieces = [("m" : ByteString)] := by decide
      rw [locate_eq_follow (by decide) (by decide), hpieces, show startOf _ _ = [] from rfl, hm, hend]
    · have hpieces : ("/m" : ByteString).pieces = [("" : ByteString), "m"] := by decide
      rw [locate_eq_follow (by decide) (by decide), hpieces, show startOf _ _ = [] from rfl, hslash, hm, hend]
  have hfind : (moduleOf content).find root = .ok (.dir [("a.go", .file content)]) := find_eq_ok.mpr ⟨_, hlocate, rfl⟩
  have hfile : (moduleOf content).find ((root : ByteString).join "a.go") = .ok (.file content) :=
    find_join hfind (List.mem_singleton_self _) (by simp)
  exact ⟨hfind, by rw [read, hfile]; rfl⟩

theorem moduleOf_walk : (moduleOf content).walk "" root = [("", (root : ByteString))] :=
  walk_of_leaf (by simp [subdirectories, (moduleOf_find content h).1, Tree.entries?])

variable {header : Source.Header} (hscan : Source.Header.scan "a.go" (Path.join root "a.go") content = .ok header)
include hscan

theorem moduleOf_packageRecord : (moduleOf content).packageRecord root = recordOf root header := by
  obtain ⟨hroot, hread⟩ := moduleOf_find content h
  have hpath : ((root : ByteString).join "a.go").lossy = Path.join root "a.go" := by
    rw [← ByteString.ofString_join, ByteString.lossy_ofString]
  have hrecord : (moduleOf content).fileRecord root "a.go" = ({ name := "a.go" } : FileRecord).addHeader header := by
    have hhidden : isHiddenName "a.go" = false := by decide
    have hgo : Language.ofName? "a.go" = some .go := by decide
    simp only [fileRecord, hhidden, hgo, hread, hpath, hscan]
    rfl
  have hfiles : [(("a.go" : ByteString), Tree.file content)].filter ((moduleOf content).isRecorded root) =
      [(("a.go" : ByteString), Tree.file content)] := rfl
  simp only [packageRecord, recordOf, hroot, hfiles, List.map_singleton, ByteString.lossy_ofString, hrecord]

theorem moduleOf_moduleRecord :
    (moduleOf content).moduleRecord root = .ok ⟨.ofList [("", recordOf root header)]⟩ := by
  refine moduleRecord_eq_ok.mpr ⟨_, (moduleOf_find content h).1, ?_⟩
  simp only [moduleOf_walk content h, List.map_singleton, moduleOf_packageRecord content h hscan]

end

/-- An import whose path is spelt with an escape, though not of a zero. -/
def plainContent : List UInt8 := Utf8.ofString "package a\n\nimport \"\\x66mt\"\n"

def plainHeader : Source.Header where
  packageName := "a"
  imports := [{ path := "fmt", position := ⟨"m/a.go", 18, 3, 8⟩ }]

theorem plainContent_stored : ∃ m, (moduleOf plainContent).moduleRecord "m" = .ok m ∧
    ∃ r, Encoding.ofModule "m" m.packages = .ok r := by
  have hscan : Source.Header.scan "a.go" "m/a.go" plainContent = .ok plainHeader := by decide +kernel
  have hm := moduleOf_moduleRecord plainContent (Or.inl rfl) hscan
  have hread := (moduleOf_find plainContent (Or.inl rfl)).2
  obtain ⟨ps, hps, hstored⟩ := stored_iff_nulFree (by decide) (by decide) hm
  rw [ByteString.lossy_ofString] at hps hstored
  have hone : [recordOf "m" plainHeader].mapM (·.relativeTo "m") = .ok [{ recordOf "m" plainHeader with dir := "m" }] := rfl
  cases hps.symm.trans hone
  refine ⟨_, hm, (hstored ?_).2.2 ?_⟩
  · simp only [sortedByDir, List.mergeSort_singleton]
    decide +kernel
  · intro d hd f hf _ _ _ _ content hcontent
    rw [moduleOf_walk plainContent (Or.inl rfl)] at hd
    cases List.mem_singleton.mp hd
    rw [moduleOf_packageRecord plainContent (Or.inl rfl) hscan] at hf
    cases List.mem_singleton.mp hf
    cases hread.symm.trans hcontent
    decide +kernel

def nulContent : List UInt8 := Utf8.ofString "//go:build \x00\n\npackage a\n"

def nulHeader : Source.Header where
  packageName := "a"
  goBuild := "//go:build \x00"

/-- One file is enough to keep a module from being written. -/
theorem nulContent_not_stored : ∃ m ps, ("m" : ByteString).isAbsolute = false ∧
    (".." : ByteString) ∉ ("m" : ByteString).pieces ∧ (moduleOf nulContent).moduleRecord "m" = .ok m ∧
    m.packages.mapM (·.relativeTo "m") = .ok ps ∧ FitsWord (indexSize (sortedByDir ps)) ∧
    Encoding.ofModule "m" m.packages = .error (.format (.nulInString "//go:build \x00")) := by
  have hscan : Source.Header.scan "a.go" "m/a.go" nulContent = .ok nulHeader := by decide +kernel
  have hm := moduleOf_moduleRecord nulContent (Or.inl rfl) hscan
  have hone : [recordOf "m" nulHeader].mapM (·.relativeTo "m") = .ok [{ recordOf "m" nulHeader with dir := "m" }] := rfl
  have hbytes : Encoding.indexBytes (sortedByDir [{ recordOf "m" nulHeader with dir := "m" }]) =
      .error (.nulInString "//go:build \x00") := by
    simp only [sortedByDir, List.mergeSort_singleton]
    decide +kernel
  refine ⟨_, _, by decide, by decide, hm, hone, ?_, ?_⟩
  · simp only [sortedByDir, List.mergeSort_singleton]
    decide +kernel
  · show Encoding.ofModule "m" [recordOf "m" nulHeader] = _
    rw [ofModule_eq hone, hbytes]
    rfl

end PackageIndex.Files
