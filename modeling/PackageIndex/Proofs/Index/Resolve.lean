/-
  PackageIndex.Proofs.Index.Resolve — an index stands for the records it was written from.

  - `resolve_opened`: what an entry looks like decides what it resolves to.
  - `resolve_ofModule`: a package resolves from the index of its module as it does from
    memory, to the same build package or with the same constraint error.
-/

import PackageIndex.Index.Resolve
import PackageIndex.Proofs.Index.RoundTrip
import PackageIndex.Proofs.Resolve.Concurring

namespace PackageIndex

open Encoding Fallible

theorem OpenIndex.resolve_opened {x : OpenIndex} {dir : String} {e : PackageEntry}
    (h : x.package? dir = .ok (some e)) (ctx : BuildContext) (mode : ResolveMode) :
    x.resolve dir ctx mode = PackageIndex.resolve e.view ctx mode := by
  unfold OpenIndex.resolve
  rw [h]
  rfl

/-- Resolving does not ask where in its module a package is. -/
theorem resolve_dir (p : PackageRecord) (dir : String) (ctx : BuildContext) (mode : ResolveMode) :
    resolve { p with dir }.view ctx mode = resolve p.view ctx mode := rfl

theorem resolve_ofModule {moduleDir : String} (openedIn : String) {ps written : List PackageRecord} {bytes : List UInt8}
    (h : ofModule moduleDir ps = .ok (bytes, written))
    (hdistinct : (ps.map fun p => Path.relative? moduleDir p.dir).Nodup) :
    ∃ x, OpenIndex.ofBytes openedIn bytes.toArray = .ok x ∧
      ∀ p ∈ ps, ∃ dir, Path.relative? moduleDir p.dir = some dir ∧ ∀ (ctx : BuildContext) (mode : ResolveMode),
        x.resolve dir ctx mode = resolve p.view ctx mode ∧
        ∀ e, resolve p.view ctx mode = .error e → ∃ file fault, e = .constraint file fault := by
  obtain ⟨x, hx, -, -, hfound⟩ := opens_of_ofModule openedIn h hdistinct
  obtain ⟨-, -, hperm⟩ := written_of_ofModule h
  refine ⟨x, hx, fun p hp => ?_⟩
  have hsome : p.relative? moduleDir ∈ written.map some := hperm.mem_iff.mpr (List.mem_map_of_mem hp)
  obtain ⟨q, hq, hrel⟩ := List.mem_map.mp hsome
  obtain ⟨dir, hdir, rfl⟩ := Option.map_eq_some_iff.mp hrel.symm
  obtain ⟨e, he, hview⟩ := hfound _ hq
  refine ⟨dir, hdir, fun ctx mode => ⟨?_, fun _ => resolve_record⟩⟩
  rw [OpenIndex.resolve_opened he, hview, resolve_dir]

theorem resolve_ofModule_samplePackages : ∃ bytes x, ofModule "/m" samplePackages = .ok (bytes, sampleWritten) ∧
    OpenIndex.ofBytes "/m" bytes.toArray = .ok x ∧
    ∀ p ∈ samplePackages, ∃ dir, Path.relative? "/m" p.dir = some dir ∧ ∀ (ctx : BuildContext) (mode : ResolveMode),
      x.resolve dir ctx mode = resolve p.view ctx mode := by
  obtain ⟨bytes, h⟩ := ofModule_samplePackages
  obtain ⟨x, hx, hall⟩ := resolve_ofModule "/m" h (by decide +kernel)
  refine ⟨bytes, x, h, hx, fun p hp => ?_⟩
  obtain ⟨dir, hdir, hsame⟩ := hall p hp
  exact ⟨dir, hdir, fun ctx mode => (hsame ctx mode).1⟩

end PackageIndex
