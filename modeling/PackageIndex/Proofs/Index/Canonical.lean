/-
  PackageIndex.Proofs.Index.Canonical — the bytes of an index and the packages in it.

  All strings are taken into the pool after the packages were told by their paths and
  sorted, so packages that end up in the same order have the same bytes.
  - `relativeTo_again`, `sortedByDir_again`: packages as they stand in an index are left as
    they are.
  - `sortedByDir_perm`: of packages in different directories only one order is left.
  - `ofModule_canonical`: an index of the packages of an index is that index, and in which
    order packages in different directories are listed does not matter.
-/

import Mathlib.Data.List.Perm.Basic
import PackageIndex.Proofs.Index.RoundTrip
import PackageIndex.Proofs.Path

namespace PackageIndex

open Encoding Fallible

/-! ## Telling a package by its path -/

theorem relativeTo_again {moduleDir : String} {p q : PackageRecord} (h : p.relativeTo moduleDir = .ok q) :
    q.relativeTo moduleDir = .ok q := by
  obtain ⟨dir, hdir, rfl⟩ := Option.map_eq_some_iff.mp (relativeTo_eq_ok h)
  unfold PackageRecord.relativeTo
  rw [show Path.relative? moduleDir dir = some dir from Path.relative?_relative? hdir]

theorem mapM_relativeTo_again {moduleDir : String} {ps qs : List PackageRecord}
    (h : ps.mapM (·.relativeTo moduleDir) = .ok qs) {rs : List PackageRecord} (hrs : rs.Perm qs) :
    rs.mapM (·.relativeTo moduleDir) = .ok rs := by
  rw [mapM_eq_ok, List.forall₂_same]
  intro q hq
  obtain ⟨p, -, hp⟩ := exists_of_forall₂ (mapM_eq_ok.mp h) (hrs.mem_iff.mp hq)
  exact relativeTo_again hp

/-- Packages in another order are told by the same paths. -/
theorem mapM_relativeTo_perm {moduleDir : String} {ps ps' qs : List PackageRecord} (hps : ps'.Perm ps)
    (h : ps.mapM (·.relativeTo moduleDir) = .ok qs) :
    ∃ qs', ps'.mapM (·.relativeTo moduleDir) = .ok qs' ∧ qs'.Perm qs := by
  obtain ⟨qs', hqs', hperm⟩ := List.perm_comp_forall₂ hps (mapM_eq_ok.mp h)
  exact ⟨qs', mapM_eq_ok.mpr hqs', hperm⟩

theorem dirs_of_relativeTo {moduleDir : String} {ps qs : List PackageRecord}
    (h : ps.mapM (·.relativeTo moduleDir) = .ok qs) :
    (ps.map fun p => Path.relative? moduleDir p.dir) = (qs.map (·.dir)).map some := by
  rw [List.map_map, ← List.forall₂_eq_eq_eq, List.forall₂_map_left_iff, List.forall₂_map_right_iff]
  refine (mapM_eq_ok.mp h).imp fun p q hpq => ?_
  obtain ⟨dir, hdir, rfl⟩ := Option.map_eq_some_iff.mp (relativeTo_eq_ok hpq)
  exact hdir

/-! ## Sorting -/

theorem sortedByDir_pairwise (ps : List PackageRecord) : (sortedByDir ps).Pairwise fun p q => p.dir ≤ q.dir :=
  Utf8.pairwise_mergeSort_key PackageRecord.dir ps

theorem perm_sortedByDir (ps : List PackageRecord) : (sortedByDir ps).Perm ps := List.mergeSort_perm ps _

/-- Also packages in one directory keep their order when they are sorted again. -/
theorem sortedByDir_again (ps : List PackageRecord) : sortedByDir (sortedByDir ps) = sortedByDir ps :=
  List.mergeSort_of_pairwise ((sortedByDir_pairwise ps).imp fun h => decide_eq_true h)

theorem sortedByDir_perm {ps qs : List PackageRecord} (h : qs.Perm ps) (hdistinct : (ps.map (·.dir)).Nodup) :
    sortedByDir qs = sortedByDir ps := by
  have hps := perm_sortedByDir ps
  have hqs := perm_sortedByDir qs
  refine List.Perm.eq_of_pairwise (fun p q hp hq hpq hqp => ?_) (sortedByDir_pairwise qs) (sortedByDir_pairwise ps)
    (hqs.trans (h.trans hps.symm))
  -- two packages that come before each other are in one directory, and so are one
  have hp := h.mem_iff.mp (hqs.mem_iff.mp hp)
  have hq := hps.mem_iff.mp hq
  exact List.inj_on_of_nodup_map hdistinct hp hq (Std.le_antisymm hpq hqp)

/-! ## Indexes -/

/-- Packages as they stand in an index are written as that index and left as they are. Of packages in different
directories every order gives the same index. -/
theorem ofModule_canonical {moduleDir : String} {ps written : List PackageRecord} {bytes : List UInt8}
    (h : ofModule moduleDir ps = .ok (bytes, written)) :
    ofModule moduleDir written = .ok (bytes, written) ∧
      ((ps.map fun p => Path.relative? moduleDir p.dir).Nodup →
        ∀ ps', ps'.Perm ps → ofModule moduleDir ps' = .ok (bytes, written)) := by
  obtain ⟨qs, hqs, -⟩ := bind_eq_ok.mp h
  have heq := ofModule_eq hqs
  constructor
  · have hwritten : written = sortedByDir qs := by
      rw [heq] at h
      obtain ⟨_, -, hpair⟩ := map_eq_ok.mp h
      cases hpair
      rfl
    subst hwritten
    rw [ofModule_eq (mapM_relativeTo_again hqs (perm_sortedByDir qs)), sortedByDir_again, ← heq]
    exact h
  · intro hdistinct ps' hperm
    obtain ⟨qs', hqs', hperm'⟩ := mapM_relativeTo_perm hperm hqs
    rw [dirs_of_relativeTo hqs] at hdistinct
    rw [ofModule_eq hqs', sortedByDir_perm hperm' (List.Nodup.of_map some hdistinct), ← heq]
    exact h

theorem samplePackages_canonical : ∃ bytes, ofModule "/m" samplePackages = .ok (bytes, sampleWritten) ∧
    ofModule "/m" sampleWritten = .ok (bytes, sampleWritten) ∧
    ofModule "/m" samplePackages.reverse = .ok (bytes, sampleWritten) := by
  obtain ⟨bytes, h⟩ := ofModule_samplePackages
  obtain ⟨hagain, hperm⟩ := ofModule_canonical h
  exact ⟨bytes, h, hagain, hperm (by decide +kernel) _ (List.reverse_perm _)⟩

end PackageIndex
