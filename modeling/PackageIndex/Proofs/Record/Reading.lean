/-
  PackageIndex.Proofs.Record.Reading — what has to be read of a file for its record.

  - `FileView.read_eq_ok`: a record is read exactly if each field is, and has what they answer.
-/

import PackageIndex.Proofs.Fallible
import PackageIndex.Record.View

namespace PackageIndex

open Fallible

/-- Every field of `f` can be read, and is that of `r`. -/
structure FileView.ReadsAs (f : FileView) (r : FileRecord) : Prop where
  name : f.name = .ok r.name
  synopsis : f.synopsis = .ok r.synopsis
  pkgName : f.pkgName = .ok r.pkgName
  ignoreFile : f.ignoreFile = .ok r.ignoreFile
  binaryOnly : f.binaryOnly = .ok r.binaryOnly
  goBuild : f.goBuild = .ok r.goBuild
  plusBuild : f.plusBuild = .ok r.plusBuild
  importComment : f.importComment = .ok r.importComment
  importCommentLine : f.importCommentLine = .ok r.importCommentLine
  imports : f.imports = .ok r.imports
  embeds : ∃ l, f.embeds = .ok l ∧ r.embeds = embedsByPattern l
  error : f.error = .ok r.error
  parseError : f.parseError = .ok r.parseError

theorem FileView.read_eq_ok {f : FileView} {r : FileRecord} : f.read = .ok r ↔ f.ReadsAs r := by
  constructor
  · intro h
    obtain ⟨_, hname, h⟩ := bind_eq_ok.mp h
    obtain ⟨_, hsynopsis, h⟩ := bind_eq_ok.mp h
    obtain ⟨_, hpkgName, h⟩ := bind_eq_ok.mp h
    obtain ⟨_, hignoreFile, h⟩ := bind_eq_ok.mp h
    obtain ⟨_, hbinaryOnly, h⟩ := bind_eq_ok.mp h
    obtain ⟨_, hgoBuild, h⟩ := bind_eq_ok.mp h
    obtain ⟨_, hplusBuild, h⟩ := bind_eq_ok.mp h
    obtain ⟨_, himportComment, h⟩ := bind_eq_ok.mp h
    obtain ⟨_, himportCommentLine, h⟩ := bind_eq_ok.mp h
    obtain ⟨_, himports, h⟩ := bind_eq_ok.mp h
    obtain ⟨l, hembeds, h⟩ := bind_eq_ok.mp h
    obtain ⟨_, herror, h⟩ := bind_eq_ok.mp h
    obtain ⟨_, hparseError, h⟩ := bind_eq_ok.mp h
    cases h
    exact ⟨hname, hsynopsis, hpkgName, hignoreFile, hbinaryOnly, hgoBuild, hplusBuild, himportComment,
      himportCommentLine, himports, ⟨l, hembeds, rfl⟩, herror, hparseError⟩
  · rintro ⟨hname, hsynopsis, hpkgName, hignoreFile, hbinaryOnly, hgoBuild, hplusBuild, himportComment,
      himportCommentLine, himports, ⟨l, hembeds, hgrouped⟩, herror, hparseError⟩
    unfold FileView.read
    rw [hname, hsynopsis, hpkgName, hignoreFile, hbinaryOnly, hgoBuild, hplusBuild, himportComment,
      himportCommentLine, himports, hembeds, herror, hparseError]
    show Except.ok { r with embeds := embedsByPattern l } = _
    rw [← hgrouped]

theorem PackageView.read_eq_ok {p : PackageView} {r : PackageRecord} : p.read = .ok r ↔
    List.Forall₂ FileView.ReadsAs p.files r.files ∧ r.error = p.error ∧ r.path = p.path ∧ r.srcDir = p.srcDir ∧
      r.dir = p.dir := by
  have hfiles (files : List FileRecord) :
      p.files.mapM FileView.read = .ok files ↔ List.Forall₂ FileView.ReadsAs p.files files := by
    rw [mapM_eq_ok]
    simp only [FileView.read_eq_ok]
  constructor
  · intro h
    obtain ⟨files, hread, h⟩ := bind_eq_ok.mp h
    cases h
    exact ⟨(hfiles files).mp hread, rfl, rfl, rfl, rfl⟩
  · rintro ⟨hread, herror, hpath, hsrcDir, hdir⟩
    refine bind_eq_ok.mpr ⟨r.files, (hfiles r.files).mpr hread, ?_⟩
    rw [← herror, ← hpath, ← hsrcDir, ← hdir]
    rfl

end PackageIndex
