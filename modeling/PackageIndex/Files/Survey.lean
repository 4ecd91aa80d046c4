/-
  PackageIndex.Files.Survey — what files are recorded as.

  A directory's record has a file for each entry that is no directory and leads to none.
  A module's has the directories below its root. They are entered, and files read, by what is
  read of their names; so one whose name is no text may be missed, and another met in its place.
  What is wrong with a file or a directory stands in its record.
-/

import PackageIndex.Proofs.Files.Following
import PackageIndex.Record.Basic
import PackageIndex.Record.Extension
import PackageIndex.Source.Header

namespace PackageIndex

/-- Adds what a file's head says. Files of other languages have constraints only, and a test
is never marked binary-only. -/
def FileRecord.addHeader (f : FileRecord) (h : Source.Header) : FileRecord :=
  let f := { f with goBuild := h.goBuild, plusBuild := h.plusBuild }
  if ¬ Source.isGoName f.name then f
  else
    { f with
      binaryOnly := h.binaryOnly && !isTestName f.name
      pkgName := h.packageName
      synopsis := h.synopsis
      parseError := h.parseError.getD ""
      importComment := if h.importCommentLine = 0 then "" else h.importComment
      importCommentLine := h.importCommentLine
      imports := h.imports
      embeds := embedsByPattern h.embeds }

namespace Files

/-! ## Directories -/

/-- The record of a file of the directory at `dir`. Objects are not read. -/
def fileRecord (fs : Files) (dir : ByteString) (name : String) : FileRecord :=
  let f : FileRecord := { name }
  if isHiddenName name then { f with ignoreFile := true }
  else
    match Language.ofName? name with
    | none => { f with ignoreFile := true }
    | some .object => f
    | some _ =>
      let path := dir.join name
      match fs.read path with
      | .error fault => { f with error := "read " ++ path.lossy ++ ": " ++ fault.message }
      | .ok content =>
        match Source.Header.scan name path.lossy content with
        | .error e => { f with error := e.message }
        | .ok h => f.addHeader h

def isRecorded (fs : Files) (dir : ByteString) (entry : ByteString × Tree) : Bool :=
  match entry.2 with
  | .file _ => true
  | .link _ => !fs.isDir (dir.join entry.1)
  | .dir _ => false

def packageRecord (fs : Files) (dir : ByteString) : PackageRecord :=
  let p : PackageRecord := { path := ".", srcDir := dir.lossy, dir := dir.lossy }
  match fs.find dir with
  | .ok (.dir entries) =>
    { p with files := (entries.filter (fs.isRecorded dir)).map fun e => fs.fileRecord dir e.1.lossy }
  | _ => { p with error := "cannot find package \".\" in:\n\t" ++ dir.lossy }

/-! ## Modules -/

/-- What is read of the names of the directories in the one at `path`, in order. -/
def subdirectories (fs : Files) (path : ByteString) : List String :=
  match fs.find path with
  | .ok (.dir entries) => ((entries.filter (·.2.entries?.isSome)).map (·.1.lossy)).mergeSort (· ≤ ·)
  | _ => []

theorem mem_subdirectories {fs : Files} {path : ByteString} {name : String} : name ∈ fs.subdirectories path ↔
    ∃ entries b es, fs.find path = .ok (.dir entries) ∧ (b, .dir es) ∈ entries ∧ name = b.lossy := by
  unfold subdirectories
  split
  · rename_i entries hfind
    rw [List.mem_mergeSort, List.mem_map]
    constructor
    · rintro ⟨⟨b, t⟩, he, rfl⟩
      obtain ⟨he, ht⟩ := List.mem_filter.mp he
      cases t with
      | dir es => exact ⟨entries, b, es, hfind, he, rfl⟩
      | _ => cases ht
    · rintro ⟨entries', b, es, hfind', he, rfl⟩
      cases hfind.symm.trans hfind'
      exact ⟨(b, .dir es), List.mem_filter.mpr ⟨he, rfl⟩, rfl⟩
  · rename_i hfind
    refine ⟨nofun, ?_⟩
    rintro ⟨entries, b, es, hfind', -, -⟩
    exact absurd hfind' (hfind entries)

/-- How far a path can still lead: through links first, and then down. -/
noncomputable def room (fs : Files) (path : ByteString) : Nat × Nat :=
  match fs.locate path with
  | .ok r => (r.links, sizeOf (fs.root.at? r.place))
  | .error _ => (0, 0)

theorem room_join_lt {fs : Files} {path : ByteString} {name : String} (h : name ∈ fs.subdirectories path) :
    Prod.Lex (· < ·) (· < ·) (fs.room (path.join name)) (fs.room path) := by
  obtain ⟨entries, b, es, hfind, hentry, rfl⟩ := mem_subdirectories.mp h
  obtain ⟨r, hr, hat⟩ := find_eq_ok.mp hfind
  have hproper := Tree.isProper_dir.mp (isProper_of_find hfind)
  have hname : (b.lossy : ByteString).IsName := (hproper.2 _ hentry).1.lossy
  have he : fs.root.entriesAt? r.place = some entries := Tree.entriesAt?_eq_some.mpr hat
  have hjoin := locate_join hname hr (Tree.kindAt?_eq_dir.mpr (by rw [he]; rfl))
  have hpath : fs.room path = (r.links, sizeOf (some (Tree.dir entries))) := by simp only [room, hr, hat]
  rw [hpath, room]
  cases hlocate : fs.locate (path.join b.lossy) with
  | error fault =>
    show Prod.Lex _ _ (0, 0) _
    rcases Nat.eq_zero_or_pos r.links with hlinks | hlinks
    · rw [hlinks]
      refine .right _ ?_
      rw [Option.some.sizeOf_spec]
      omega
    · exact .left _ _ hlinks
  | ok r' =>
    show Prod.Lex _ _ (r'.links, sizeOf (fs.root.at? r'.place)) _
    rcases follow_name hname he (hjoin.symm.trans hlocate) with hlinks | ⟨s, hs, rfl⟩
    · exact .left _ _ hlinks
    · have hsize := List.sizeOf_lt_of_mem (mem_of_lookup hs)
      rw [Tree.at?_of_entriesAt? he, hs]
      refine .right _ ?_
      simp only [Option.some.sizeOf_spec, Tree.dir.sizeOf_spec, Prod.mk.sizeOf_spec] at hsize ⊢
      omega

/-- The directories at and below `path`, each with its path below the root of the walk and its own. A directory
comes before those in it. -/
def walk (fs : Files) (rel : String) (path : ByteString) : List (String × ByteString) :=
  (rel, path) :: (fs.subdirectories path).attach.flatMap fun ⟨name, _⟩ =>
    walk fs (if rel = "" then name else rel ++ "/" ++ name) (path.join name)
termination_by fs.room path
decreasing_by exact room_join_lt (by assumption)

def moduleRecord (fs : Files) (root : ByteString) : Except Failure ModuleRecord := do
  let t ← (fs.find root).mapError .io
  if t.entries?.isNone then throw (.pathNotFound root.lossy)
  return ⟨.ofList ((fs.walk "" root).map fun (rel, path) => (rel, fs.packageRecord path))⟩

end Files

end PackageIndex
