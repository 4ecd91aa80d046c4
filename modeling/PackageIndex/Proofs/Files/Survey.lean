/-
  PackageIndex.Proofs.Files.Survey — which directories a module's record has.

  The walk makes two spellings of each directory it meets, one that is its key below the root and
  one that the directory is read at. Both are told by the names on the way, as they were read
  (`mem_walk`).
-/

import PackageIndex.Files.Survey
import PackageIndex.Proofs.Fallible
import PackageIndex.Proofs.Files.Spelling
import PackageIndex.Proofs.Record.SortedMap

namespace PackageIndex.Files

open Fallible

/-! ## The walk -/

/-- Names that the walk goes down by from `path`. -/
inductive Walked (fs : Files) : ByteString → List String → Prop where
  | start (path : ByteString) : Walked fs path []
  | down {path : ByteString} {name : String} {names : List String} (hname : name ∈ fs.subdirectories path)
      (h : Walked fs (path.join name) names) : Walked fs path (name :: names)

def reached (rel : String) (path : ByteString) (names : List String) : String × ByteString :=
  (Path.below rel ("/".intercalate names), (names.map ByteString.ofString).foldl ByteString.join path)

variable {fs : Files} {path : ByteString} {name rel : String} {names : List String}

theorem isName_of_mem_subdirectories (h : name ∈ fs.subdirectories path) : Path.IsName name := by
  obtain ⟨entries, b, es, hfind, he, rfl⟩ := mem_subdirectories.mp h
  have hname : b.IsName := ((Tree.isProper_dir.mp (isProper_of_find hfind)).2 _ he).1
  exact ByteString.isName_iff.mp hname.lossy

theorem Walked.isName (h : Walked fs path names) : ∀ n ∈ names, Path.IsName n := by
  induction h with
  | start => exact List.forall_mem_nil _
  | down hname _ ih => exact List.forall_mem_cons.mpr ⟨isName_of_mem_subdirectories hname, ih⟩

theorem reached_cons (hname : Path.IsPart name) (hnames : ∀ n ∈ names, Path.IsPart n) :
    reached (Path.below rel name) (path.join name) names = reached rel path (name :: names) := by
  rw [reached, reached, Path.intercalate_cons hname hnames, Path.below_assoc, List.map_cons, List.foldl_cons]

theorem below_eq_ite (h : name ∈ fs.subdirectories path) :
    Path.below rel name = if rel = "" then name else rel ++ "/" ++ name := by
  simp [Path.below, (isName_of_mem_subdirectories h).ne_empty]

theorem mem_walk_iff {d : String × ByteString} : d ∈ fs.walk rel path ↔
    d = (rel, path) ∨ ∃ name ∈ fs.subdirectories path, d ∈ fs.walk (Path.below rel name) (path.join name) := by
  rw [walk, List.mem_cons, List.mem_flatMap]
  refine or_congr_right ⟨?_, ?_⟩
  · rintro ⟨⟨name, hname⟩, -, hd⟩
    exact ⟨name, hname, by rw [below_eq_ite hname]; exact hd⟩
  · rintro ⟨name, hname, hd⟩
    rw [below_eq_ite hname] at hd
    exact ⟨⟨name, hname⟩, List.mem_attach _ _, hd⟩

theorem walk_of_leaf (h : fs.subdirectories path = []) : fs.walk rel path = [(rel, path)] := by
  rw [walk]
  simp [h]

theorem mem_walk {d : String × ByteString} :
    d ∈ fs.walk rel path ↔ ∃ names, Walked fs path names ∧ d = reached rel path names := by
  have hdown {rel name : String} {path : ByteString} {names : List String} (hname : name ∈ fs.subdirectories path)
      (h : Walked fs (path.join name) names) :
      reached (Path.below rel name) (path.join name) names = reached rel path (name :: names) :=
    reached_cons (isName_of_mem_subdirectories hname).isPart fun n hn => (h.isName n hn).isPart
  constructor
  · intro hd
    induction rel, path using walk.induct fs with
    | case1 rel path ih =>
      rcases mem_walk_iff.mp hd with rfl | ⟨name, hname, hd⟩
      · exact ⟨[], .start path, by simp [reached, Path.below]⟩
      · have ih := ih name hname
        rw [dite_eq_ite, ← below_eq_ite hname] at ih
        obtain ⟨names, h, rfl⟩ := ih hd
        exact ⟨name :: names, .down hname h, hdown hname h⟩
  · rintro ⟨names, h, rfl⟩
    induction h generalizing rel with
    | start path => exact mem_walk_iff.mpr (Or.inl (by simp [reached, Path.below]))
    | @down path name names hname h ih =>
      rw [← hdown hname h]
      exact mem_walk_iff.mpr (Or.inr ⟨name, hname, ih⟩)

/-! ## Modules -/

variable {root : ByteString} {m : ModuleRecord}

theorem moduleRecord_eq_ok : fs.moduleRecord root = .ok m ↔ ∃ entries, fs.find root = .ok (.dir entries) ∧
    m = ⟨.ofList ((fs.walk "" root).map fun (rel, path) => (rel, fs.packageRecord path))⟩ := by
  unfold moduleRecord
  rw [bind_eq_ok]
  constructor
  · rintro ⟨t, ht, h⟩
    obtain ⟨hdir, h⟩ := throw_if_eq_ok.mp h
    cases h
    cases t with
    | dir entries => exact ⟨entries, mapError_eq_ok.mp ht, rfl⟩
    | _ => exact absurd rfl hdir
  · rintro ⟨entries, ht, rfl⟩
    exact ⟨_, mapError_eq_ok.mpr ht, throw_if_eq_ok.mpr ⟨by simp [Tree.entries?], rfl⟩⟩

theorem ne_empty_of_find {t : Tree} (h : fs.find path = .ok t) : path ≠ "" := by
  rintro rfl
  cases h

@[simp] theorem packageRecord_dir (fs : Files) (dir : ByteString) : (fs.packageRecord dir).dir = dir.lossy := by
  unfold packageRecord
  split <;> rfl

/-- A key is spelt by the names that the walk went down by, and so is the path that is read for it. -/
theorem mem_moduleRecord (h : fs.moduleRecord root = .ok m) {p : PackageRecord} (hp : (rel, p) ∈ m.dirs.entries) :
    ∃ names, Walked fs root names ∧ rel = "/".intercalate names ∧
      p = fs.packageRecord ((names.map ByteString.ofString).foldl ByteString.join root) := by
  obtain ⟨entries, -, rfl⟩ := moduleRecord_eq_ok.mp h
  obtain ⟨⟨rel', path⟩, hd, he⟩ := List.mem_map.mp (SortedMap.mem_entries_ofList hp)
  cases he
  obtain ⟨names, hwalked, hreached⟩ := mem_walk.mp hd
  cases hreached
  exact ⟨names, hwalked, by simp [Path.below], rfl⟩

theorem mem_keys_moduleRecord (h : fs.moduleRecord root = .ok m) :
    rel ∈ m.dirs.keys ↔ ∃ names, Walked fs root names ∧ rel = "/".intercalate names := by
  obtain ⟨entries, -, rfl⟩ := moduleRecord_eq_ok.mp h
  rw [SortedMap.mem_keys_ofList, List.map_map, List.mem_map]
  simp only [mem_walk]
  constructor
  · rintro ⟨d, ⟨names, hwalked, rfl⟩, rfl⟩
    exact ⟨names, hwalked, by simp [reached, Path.below]⟩
  · rintro ⟨names, hwalked, rfl⟩
    exact ⟨reached "" root names, ⟨names, hwalked, rfl⟩, by simp [reached, Path.below]⟩

end PackageIndex.Files
