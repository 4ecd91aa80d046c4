/-
  PackageIndex.Proofs.Index.Opening — which bytes open as an index, and as which.

  - `ofBytes_eq_ok`: bytes open exactly where their header is in order and the name of
    every package can be read.
  - `packageAt_eq_ok`: what has to be read of a package before its files are.
  - `package?_of_mem`: of packages in different directories each is found.
-/

import PackageIndex.Index.Entry
import PackageIndex.Proofs.Fallible
import PackageIndex.Proofs.Lookup

namespace PackageIndex.OpenIndex

open Fallible

/-! ## The header -/

/-- What is asked of the bytes before any name is read: `table` is where the string table
begins, and there are `count` packages. -/
structure Header (data : Array UInt8) (table count : UInt32) : Prop where
  version : (data.extract 0 indexVersion.length).toList = indexVersion
  table_eq : wordAt? data 12 = some table
  count_eq : wordAt? data 16 = some count
  packages_le : 20 + 8 * count.toNat ≤ table.toNat
  lt_size : table.toNat < data.size
  zero : data[table.toNat]? = some 0

def packageTable (data : Array UInt8) (table count : UInt32) : Field (List (String × Nat)) :=
  let strings : StringTable := ⟨data.extract table.toNat⟩
  let dirs := (wordsAt? data 20 count.toNat).getD []
  let offsets := (wordsAt? data (20 + 4 * count.toNat) count.toNat).getD []
  (dirs.zip offsets).mapM fun (dir, offset) => do return (← strings.get dir, offset.toNat)

/-- Bytes open exactly where their header is in order and all names can be read. -/
theorem ofBytes_eq_ok {moduleDir : String} {data : Array UInt8} {x : OpenIndex} :
    ofBytes moduleDir data = .ok x ↔ ∃ table count packages, Header data table count ∧
      packageTable data table count = .ok packages ∧
      x = ⟨moduleDir, data, table.toNat, ⟨data.extract table.toNat⟩, packages⟩ := by
  constructor
  · intro h
    simp only [ofBytes, throw_if_eq_ok] at h
    obtain ⟨-, hversion, h⟩ := h
    split at h
    · rename_i table htable
      split at h
      · rename_i count hcount
        simp only [throw_if_eq_ok, bind_eq_ok] at h
        obtain ⟨hrange, hpackages, hzero, packages, hp, h⟩ := h
        cases h
        refine ⟨table, count, packages, ⟨Decidable.not_not.mp hversion, htable, hcount, ?_, ?_, ?_⟩, hp, rfl⟩
        · omega
        · omega
        · exact Decidable.not_not.mp hzero
      · cases h
    · cases h
  · rintro ⟨table, count, packages, hh, hp, rfl⟩
    have hle := hh.packages_le
    have hlt := hh.lt_size
    simp only [ofBytes, throw_if_eq_ok, hh.version, hh.table_eq, hh.count_eq]
    refine ⟨by omega, by simp, by omega, by omega, by simp [hh.zero], ?_⟩
    exact bind_eq_ok.mpr ⟨packages, hp, rfl⟩

/-! ## Packages -/

theorem fileAt_eq_ok {x : OpenIndex} {offset : Nat} {f : FileEntry} :
    x.fileAt offset = .ok f ↔ offset + 44 ≤ x.tableOffset ∧ f = { index := x, offset } := by
  unfold fileAt
  by_cases hle : offset + 44 ≤ x.tableOffset
  · rw [if_pos hle]
    exact ⟨fun h => ⟨hle, by cases h; rfl⟩, fun h => by rw [h.2]; rfl⟩
  · rw [if_neg hle]
    exact ⟨fun h => (nomatch h), fun h => absurd h.1 hle⟩

theorem packageAt_eq_ok {x : OpenIndex} {a : Nat} {p : PackageEntry} :
    x.packageAt a = .ok p ↔ ∃ error path srcDir dir n offsets,
      x.words a 5 = .ok [error, path, srcDir, dir, n] ∧ x.words (a + 20) n.toNat = .ok offsets ∧
      List.Forall₂ (fun offset f => x.fileAt (UInt32.toNat offset) = .ok f) offsets p.files ∧
      x.strings.get error = .ok p.error ∧ x.strings.get path = .ok p.path ∧ x.strings.get srcDir = .ok p.srcDir ∧
      x.strings.get dir = .ok p.dir := by
  constructor
  · intro h
    obtain ⟨ws, hws, h⟩ := bind_eq_ok.mp h
    split at h
    · obtain ⟨offsets, hoffsets, h⟩ := bind_eq_ok.mp h
      obtain ⟨files, hfiles, h⟩ := bind_eq_ok.mp h
      obtain ⟨_, herror, h⟩ := bind_eq_ok.mp h
      obtain ⟨_, hpath, h⟩ := bind_eq_ok.mp h
      obtain ⟨_, hsrc, h⟩ := bind_eq_ok.mp h
      obtain ⟨_, hdir, h⟩ := bind_eq_ok.mp h
      cases h
      exact ⟨_, _, _, _, _, offsets, hws, hoffsets, mapM_eq_ok.mp hfiles, herror, hpath, hsrc, hdir⟩
    · cases h
  · rintro ⟨error, path, srcDir, dir, n, offsets, hws, hoffsets, hfiles, herror, hpath, hsrc, hdir⟩
    refine bind_eq_ok.mpr ⟨_, hws, bind_eq_ok.mpr ⟨offsets, hoffsets, ?_⟩⟩
    refine bind_eq_ok.mpr ⟨p.files, mapM_eq_ok.mpr hfiles, ?_⟩
    exact bind_eq_ok.mpr ⟨_, herror, bind_eq_ok.mpr ⟨_, hpath, bind_eq_ok.mpr ⟨_, hsrc, bind_eq_ok.mpr ⟨_, hdir, rfl⟩⟩⟩⟩

/-- Of packages in different directories each is found under its own. -/
theorem package?_of_mem {x : OpenIndex} (hx : x.dirs.Nodup) {dir : String} {a : Nat} (h : (dir, a) ∈ x.packages) :
    x.package? dir = some <$> x.packageAt a := by
  have hrev : (x.packages.reverse.map (·.1)).Nodup := by
    rw [List.map_reverse]
    exact (List.reverse_perm _).nodup_iff.mpr hx
  unfold package? address?
  rw [lookup_of_mem hrev (List.mem_reverse.mpr h)]

theorem contains_iff {x : OpenIndex} {dir : String} : x.contains dir = true ↔ dir ∈ x.dirs := by
  unfold contains address? dirs
  rw [lookup_isSome_iff, List.map_reverse, List.mem_reverse]

end PackageIndex.OpenIndex
