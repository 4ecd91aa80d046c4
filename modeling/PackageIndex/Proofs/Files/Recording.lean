/-
  PackageIndex.Proofs.Files.Recording — what goes with what in the record of a file.

  A record is filled as far as the reading came: a name may be left out, a content not be
  read, a header have two `//go:build` lines, a text not be UTF-8 and a clause break off at any
  token. Whichever it was, no part of the record stands without those it depends on.

  - `scanned_fileRecord`: the record of an entry.
  - `scanned_packageRecord`: every record of a directory, whatever the files hold.
-/

import PackageIndex.Proofs.Files.Storing
import PackageIndex.Proofs.Source.Scanning

namespace PackageIndex

/-! ## Names -/

/-- The ending is what stands from the last point on. -/
theorem extension_eq_go {name : String} : extension name = ".go" ↔ Source.isGoName name = true := by
  have hgo : Source.isGoName name = true ↔ ['o', 'g', '.'] <+: name.toList.reverse := by
    rw [Source.isGoName, List.isSuffixOf_iff_suffix, ← List.reverse_prefix]
    rfl
  have hsplit : name.toList.reverse.takeWhile (· ≠ '.') ++ name.toList.reverse.dropWhile (· ≠ '.') = name.toList.reverse :=
    List.takeWhile_append_dropWhile
  rw [hgo]
  constructor
  · intro h
    simp only [extension] at h
    split at h
    · exact absurd h (by decide)
    · rename_i hlength
      have hcons : '.' :: (name.toList.reverse.takeWhile (· ≠ '.')).reverse = ".go".toList := by
        rw [← h, String.toList_ofList]
      have htail : name.toList.reverse.takeWhile (· ≠ '.') = ['o', 'g'] := by
        rw [← List.reverse_reverse (name.toList.reverse.takeWhile _), (List.cons.inj hcons).2]
        rfl
      rw [htail] at hsplit hlength
      cases hrest : name.toList.reverse.dropWhile (· ≠ '.') with
      | nil =>
        rw [hrest, List.append_nil] at hsplit
        have hall : (2 : Nat) = name.toList.length := by
          rw [← List.length_reverse, ← hsplit]
          rfl
        exact absurd hall hlength
      | cons c rest =>
        have hpoint : c = '.' := eq_of_head?_dropWhile_ne (by rw [hrest]; rfl)
        rw [hrest, hpoint] at hsplit
        exact ⟨rest, hsplit⟩
  · rintro ⟨rest, hrest⟩
    have htail : name.toList.reverse.takeWhile (· ≠ '.') = ['o', 'g'] := by
      rw [← hrest]
      simp
    have hlength : name.toList.length ≠ 2 := by
      rw [← List.length_reverse, ← hrest]
      simp
    have hpart : ¬ ['o', 'g'].length = name.toList.length := Ne.symm hlength
    simp only [extension, htail]
    rw [if_neg hpart]
    rfl

namespace FileRecord

structure Scanned (f : FileRecord) : Prop where
  /-- A file that could not be read has no more than its name. -/
  failed : f.error ≠ "" → f = { name := f.name, error := f.error }
  ignored : f.ignoreFile = true → f = { name := f.name, ignoreFile := true }
  goBuild : f.goBuild ≠ "" → Constraint.isGoBuildLine f.goBuild.toList = true ∧ f.plusBuild = []
  plusBuild : ∀ line ∈ f.plusBuild, Constraint.isPlusBuildLine line.toList = true
  /-- A file of another language has constraints at most. -/
  other : extension f.name ≠ ".go" →
    f = { name := f.name, ignoreFile := f.ignoreFile, goBuild := f.goBuild, plusBuild := f.plusBuild, error := f.error }
  binaryOnly : f.binaryOnly = true → extension f.name = ".go" ∧ isTestName f.name = false
  importComment : f.importComment ≠ "" ↔ f.importCommentLine ≠ 0
  embeds : f.embeds ≠ ∅ → f.parseError = "" ∧ ∃ i ∈ f.imports, i.path = "embed"
  positions : ∀ e ∈ f.embeds.entries, e.2 ≠ []
  pkgName : extension f.name = ".go" → f.error = "" → f.ignoreFile = false → f.parseError = "" → f.pkgName ≠ ""
  docs : ∀ i ∈ f.imports, Source.Tidy i.doc.toList

theorem scanned_addHeader {name : String} {h : Source.Header} (hh : h.Scanned name) :
    (({ name } : FileRecord).addHeader h).Scanned := by
  unfold addHeader
  simp only
  split
  · rename_i hother
    have hext : extension name ≠ ".go" := fun hext => hother (extension_eq_go.mp hext)
    exact ⟨by simp, by simp, hh.goBuild, hh.plusBuild, fun _ => rfl, by simp, by simp, by simp, nofun, fun hgo => absurd hgo hext,
      by simp⟩
  · rename_i hgo
    have hgo : Source.isGoName name = true := Decidable.not_not.mp hgo
    have hext : extension name = ".go" := extension_eq_go.mpr hgo
    have hnone : h.parseError.getD "" = "" → h.parseError = none := by
      intro hempty
      cases herror : h.parseError with
      | none => rfl
      | some message =>
        rw [herror] at hempty
        exact absurd hempty (hh.parseError message herror)
    constructor
    · simp
    · simp
    · exact hh.goBuild
    · exact hh.plusBuild
    · exact fun hother => absurd hext hother
    · intro hbinary
      simp only [Bool.and_eq_true, Bool.not_eq_true'] at hbinary
      exact ⟨hext, hbinary.2⟩
    · simp only
      split
      · rename_i hzero
        simp [hzero]
      · rename_i hline
        exact ⟨fun _ => hline, fun _ => hh.importComment hline⟩
    · intro hembeds
      have hne : h.embeds ≠ [] := by
        intro hnil
        rw [hnil] at hembeds
        exact hembeds rfl
      obtain ⟨herror, himport⟩ := hh.embeds hne
      exact ⟨by simp [herror], himport⟩
    · exact fun e he => positions_ne_nil he
    · exact fun _ _ _ herror => hh.packageName hgo (hnone herror)
    · exact hh.docs

end FileRecord

namespace Files

/-- The record of an entry, whatever it holds. -/
theorem scanned_fileRecord (fs : Files) (dir : ByteString) (name : String) : (fs.fileRecord dir name).Scanned := by
  have hignored : FileRecord.Scanned { name, ignoreFile := true } :=
    ⟨by simp, fun _ => rfl, by simp, by simp, fun _ => rfl, by simp, by simp, by simp, nofun, by simp, by simp⟩
  have hfailed (error : String) (h : extension name = ".go" → error ≠ "") : FileRecord.Scanned { name, error } :=
    ⟨fun _ => rfl, by simp, by simp, by simp, fun _ => rfl, by simp, by simp, by simp, nofun,
      fun hgo hnone => absurd hnone (h hgo), by simp⟩
  unfold fileRecord
  simp only
  split
  · exact hignored
  · split
    · exact hignored
    · rename_i hobject
      refine hfailed "" fun hgo => ?_
      rw [Language.ofName?_eq_go.mpr hgo] at hobject
      cases hobject
    · split
      · exact hfailed _ fun _ => by simp
      · split
        · exact hfailed _ fun _ => by simp [Source.HeaderError.message]
        · rename_i h hscan
          exact FileRecord.scanned_addHeader (Source.scanned_scan hscan)

/-- Every record of a directory, whatever the files hold. -/
theorem scanned_packageRecord (fs : Files) (dir : ByteString) : ∀ f ∈ (fs.packageRecord dir).files, f.Scanned := by
  unfold packageRecord
  split
  · intro f hf
    obtain ⟨e, -, rfl⟩ := List.mem_map.mp hf
    exact scanned_fileRecord fs dir e.1.lossy
  · simp

/-- A file with every part. The comment of its first import loses blank lines and the white space at a line's end. -/
def fullContent : List UInt8 := Utf8.ofString
  "//go:build linux\n\npackage a // import \"x/a\"\n\n/*\n\n  int f();  \n\n\n  int g();\n\n*/\nimport \"C\"\nimport _ \"embed\"\n\n//go:embed a.txt\nvar text string\n"

def fullHeader : Source.Header where
  packageName := "a"
  goBuild := "//go:build linux"
  importComment := "\"x/a\""
  importCommentLine := 3
  imports := [{ path := "C", doc := "  int f();\n\n  int g();\n", position := ⟨"m/a.go", 86, 13, 8⟩ },
    { path := "embed", position := ⟨"m/a.go", 97, 14, 8⟩ }]
  embeds := [{ pattern := "a.txt", position := ⟨"m/a.go", 119, 16, 12⟩ }]

theorem fullContent_scanned : ((moduleOf fullContent).packageRecord "m").files = [({ name := "a.go" } : FileRecord).addHeader fullHeader] ∧
    (({ name := "a.go" } : FileRecord).addHeader fullHeader).Scanned := by
  have hscan : Source.Header.scan "a.go" "m/a.go" fullContent = .ok fullHeader := by decide +kernel
  have hfiles : ((moduleOf fullContent).packageRecord "m").files = [({ name := "a.go" } : FileRecord).addHeader fullHeader] := by
    rw [moduleOf_packageRecord fullContent (Or.inl rfl) hscan]
    rfl
  refine ⟨hfiles, scanned_packageRecord (moduleOf fullContent) "m" _ ?_⟩
  rw [hfiles]
  exact List.mem_singleton_self _

end Files

end PackageIndex
