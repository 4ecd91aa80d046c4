/-
  PackageIndex.Proofs.Command — what `write` wrote, `cook` finds.

  The walk makes the key of a directory of the names on its way; the index has the path that
  is left of the directory's own path when the root's is taken off. An absolute root is taken
  off whole, so the keys are the same. A relative one is not taken off: its directories stand
  in the index below the names of the root (`found_of_write`), and not under their keys
  (`sampleFiles_not_found`).
-/

import PackageIndex.Command
import PackageIndex.Proofs.Files.Storing
import PackageIndex.Proofs.Index.Resolve

namespace PackageIndex.Command

open Fallible

variable {fs fs' : Files} {root idx : String} {m : ModuleRecord}

/-! ## Writing and opening -/

theorem writeIndex_eq_ok (h : (writeIndex idx root m).run.run fs = (.ok (), fs')) :
    ∃ bytes written, Encoding.ofModule root m.packages = .ok (bytes, written) ∧
      (Files.write idx bytes).run.run fs = (.ok (), fs') := by
  unfold writeIndex at h
  obtain ⟨⟨bytes, written⟩, hbytes, h⟩ := run_liftM_bind_eq_ok.mp h
  exact ⟨bytes, written, hbytes, run_adapt_eq_ok.mp h⟩

theorem openIndex_of_read {bytes : List UInt8} {x : OpenIndex} (hread : fs.read idx = .ok bytes)
    (hopen : OpenIndex.ofBytes root bytes.toArray = .ok x) : openIndex fs idx root = .ok x := by
  unfold openIndex
  rw [hread]
  exact mapError_eq_ok.mpr hopen

/-! ## Keys -/

/-- Where a directory of a module stands in the module's index: below the place of the root. -/
theorem relative?_of_mem (hm : fs.moduleRecord root = .ok m) {d : String} {p : PackageRecord} (hp : (d, p) ∈ m.dirs.entries) :
    Path.relative? root p.dir = (Path.relative? root root).map (Path.below · d) := by
  obtain ⟨names, hwalked, rfl, rfl⟩ := Files.mem_moduleRecord hm hp
  obtain ⟨entries, hfind, -⟩ := Files.moduleRecord_eq_ok.mp hm
  have hroot : root ≠ "" := fun h => Files.ne_empty_of_find hfind (by rw [h])
  rw [Files.packageRecord_dir, ← ByteString.ofString_foldl, ByteString.lossy_ofString,
    Path.relative?_foldl hwalked.isName hroot]

/-- The module's root is one of its directories. -/
theorem exists_root (hm : fs.moduleRecord root = .ok m) : ∃ p, ("", p) ∈ m.dirs.entries := by
  have hkey : "" ∈ m.dirs.keys := (Files.mem_keys_moduleRecord hm).mpr ⟨[], .start root, rfl⟩
  obtain ⟨⟨d, p⟩, hp, rfl⟩ := List.mem_map.mp hkey
  exact ⟨p, hp⟩

section

variable {base : String} (hbase : Path.relative? root root = some base)
include hbase

/-- A key is spelt by names, also below the root's. -/
theorem below_eq_intercalate (hm : fs.moduleRecord root = .ok m) {d : String} {p : PackageRecord} (hp : (d, p) ∈ m.dirs.entries) :
    ∃ l, (∀ s ∈ l, Path.IsPart s) ∧ Path.below base d = "/".intercalate l := by
  obtain ⟨names, hwalked, rfl, -⟩ := Files.mem_moduleRecord hm hp
  obtain ⟨up, hup, rfl⟩ := Option.map_eq_some_iff.mp hbase
  have hparts := Path.isPart_of_relativeNames? hup
  have hnames' : ∀ n ∈ names, Path.IsPart n := fun n hn => (hwalked.isName n hn).isPart
  refine ⟨up ++ names, ?_, (Path.intercalate_append hparts hnames').symm⟩
  intro s hs
  rcases List.mem_append.mp hs with hs | hs
  · exact hparts s hs
  · exact hnames' s hs

theorem relative?_nodup (hm : fs.moduleRecord root = .ok m) :
    (m.packages.map fun p => Path.relative? root p.dir).Nodup := by
  have hkeys : (m.packages.map fun p => Path.relative? root p.dir) = m.dirs.keys.map fun d => some (Path.below base d) := by
    unfold ModuleRecord.packages SortedMap.keys
    rw [List.map_map, List.map_map]
    apply List.map_congr_left
    intro e he
    show Path.relative? root e.2.dir = _
    rw [relative?_of_mem hm he, hbase]
    rfl
  rw [hkeys]
  refine List.Nodup.map (fun d d' h => Path.below_injective base (Option.some.inj h)) ?_
  exact m.dirs.keys_pairwise.imp Std.ne_of_lt

end

theorem trim_of_ends {α : Type} {p : α → Bool} {l : List α} (hhead : ∀ a ∈ l.head?, p a = false)
    (hlast : ∀ a ∈ l.getLast?, p a = false) : trim p l = l := by
  have hstart : trimStart p l = l := by
    cases l with
    | nil => rfl
    | cons a l => exact List.dropWhile_cons_of_neg (by simp [hhead a rfl])
  have hend : trimEnd p l = l := by
    unfold trimEnd
    cases hl : l.reverse with
    | nil => simpa using hl.symm
    | cons a more =>
      rw [List.dropWhile_cons_of_neg, ← hl, List.reverse_reverse]
      simp [hlast a (by simp [List.getLast?_eq_head?_reverse, hl])]
  rw [trim, hstart, hend]

/-- A path that is spelt by its parts has no slashes to trim. -/
theorem trimSlashes_intercalate {l : List String} (h : ∀ s ∈ l, Path.IsPart s) :
    trimSlashes ("/".intercalate l) = "/".intercalate l := by
  obtain ⟨hhead, hlast⟩ := Path.ends_of_intercalate h
  unfold trimSlashes
  rw [trim_of_ends, String.ofList_toList]
  · intro c hc
    simpa using fun he : c = '/' => hhead (he ▸ hc)
  · intro c hc
    simpa using fun he : c = '/' => hlast (he ▸ hc)

/-- The commands agree: a directory that was recorded is found in the index that was written, by its
key below the names of the root, and resolves to what its record resolves to. -/
theorem found_of_write (hm : fs.moduleRecord root = .ok m)
    (hw : (writeIndex idx root m).run.run fs = (.ok (), fs')) (hdir : fs'.isDir (Path.directory idx) = true) :
    ∃ base x, Path.relative? root root = some base ∧ (Path.isAbsolute root = true → base = "") ∧
      openIndex fs' idx root = .ok x ∧ ∀ d p, m.dirs.get? d = some p → x.contains (Path.below base d) = true ∧
        (∀ ctx mode, x.resolve (Path.below base d) ctx mode = resolve p.view ctx mode) ∧
        ∀ env, cook env fs' idx root (Path.below base d) = (do
          let ctx ← context env fs'
          return printed (← resolve p.view ctx { importComment := true })) := by
  obtain ⟨bytes, written, hbytes, hwrite⟩ := writeIndex_eq_ok hw
  obtain ⟨-, -, hperm⟩ := written_of_ofModule hbytes
  have hwritten {d : String} {p : PackageRecord} (hp : (d, p) ∈ m.dirs.entries) :
      ∃ q ∈ written, p.relative? root = some q := by
    have hmem : p ∈ m.packages := List.mem_map_of_mem hp
    obtain ⟨q, hq, hrel⟩ := List.mem_map.mp (hperm.mem_iff.mpr (List.mem_map_of_mem hmem))
    exact ⟨q, hq, hrel.symm⟩
  have hbase : ∃ base, Path.relative? root root = some base := by
    obtain ⟨p, hp⟩ := exists_root hm
    obtain ⟨q, -, hrel⟩ := hwritten hp
    obtain ⟨dir, hdir, -⟩ := Option.map_eq_some_iff.mp hrel
    rw [relative?_of_mem hm hp] at hdir
    obtain ⟨base, hbase, -⟩ := Option.map_eq_some_iff.mp hdir
    exact ⟨base, hbase⟩
  obtain ⟨base, hbase⟩ := hbase
  obtain ⟨x, hx, hdirs, -, hfound⟩ := opens_of_ofModule root hbytes (relative?_nodup hbase hm)
  have hopen := openIndex_of_read (Files.read_written hwrite hdir) hx
  refine ⟨base, x, hbase, ?_, hopen, fun d p hp => ?_⟩
  · intro habs
    rw [Path.relative?, Path.relativeNames?_self habs] at hbase
    exact (Option.some.inj hbase).symm
  · have hmem := mem_of_lookup hp
    obtain ⟨q, hq, hrel⟩ := hwritten hmem
    rw [PackageRecord.relative?, relative?_of_mem hm hmem, hbase] at hrel
    cases hrel
    obtain ⟨e, he, hview⟩ := hfound _ hq
    have hresolve (ctx : BuildContext) (mode : ResolveMode) :
        x.resolve (Path.below base d) ctx mode = resolve p.view ctx mode := by
      rw [OpenIndex.resolve_opened he, hview, resolve_dir]
    refine ⟨?_, hresolve, fun env => ?_⟩
    · rw [OpenIndex.contains_iff, hdirs]
      exact List.mem_map_of_mem hq
    · obtain ⟨l, hl, hkey⟩ := below_eq_intercalate hbase hm hmem
      have htrim : trimSlashes (Path.below base d) = Path.below base d := by rw [hkey, trimSlashes_intercalate hl]
      unfold cook
      rw [hopen, htrim]
      show (context env fs' >>= fun ctx => x.resolve (Path.below base d) ctx _ >>= fun p => pure (printed p)) = _
      simp only [hresolve]

/-! ## A module with one file -/

def sampleContent : List UInt8 := Utf8.ofString "package a\n"

def sampleFiles : Files := { root := .dir [("m", .dir [("a.go", .file sampleContent)])], proper := rfl }

def samplePackage (root dir : String) : PackageRecord :=
  { path := ".", srcDir := root, dir, files := [{ name := "a.go", pkgName := "a" }] }

section

variable (root : String) (h : root = "m" ∨ root = "/m")
include h

theorem sampleFiles_moduleRecord :
    sampleFiles.moduleRecord root = .ok ⟨.ofList [("", samplePackage root root)]⟩ := by
  have hscan : Source.Header.scan "a.go" (Path.join root "a.go") sampleContent = .ok { packageName := "a" } := by
    rcases h with rfl | rfl <;> decide +kernel
  have hfile : ({ name := "a.go" } : FileRecord).addHeader { packageName := "a" } = { name := "a.go", pkgName := "a" } := by
    decide
  have hm := Files.moduleOf_moduleRecord sampleContent h hscan
  unfold Files.recordOf at hm
  rw [hfile] at hm
  exact hm

def samplePlace (root : String) : String := if root = "m" then "m" else ""

theorem ofModule_samplePackage : ∃ bytes,
    Encoding.ofModule root [samplePackage root root] = .ok (bytes, [samplePackage root (samplePlace root)]) := by
  have hrel : [samplePackage root root].mapM (·.relativeTo root) = .ok [samplePackage root (samplePlace root)] := by
    rcases h with rfl | rfl <;> rfl
  have hsort : sortedByDir [samplePackage root (samplePlace root)] = [samplePackage root (samplePlace root)] := by
    simp [sortedByDir]
  have hok : (Encoding.indexBytes [samplePackage root (samplePlace root)]).isOk = true := by
    rcases h with rfl | rfl <;> decide +kernel
  cases hbytes : Encoding.indexBytes [samplePackage root (samplePlace root)] with
  | error e => rw [hbytes] at hok; cases hok
  | ok bytes =>
    refine ⟨bytes, ?_⟩
    rw [ofModule_eq hrel, hsort, hbytes]
    rfl

omit h in
theorem sampleFiles_put (bytes : List UInt8) : ∃ fs', (Files.write "idx" bytes).run.run sampleFiles = (.ok (), fs') ∧
    fs'.root = .put (.file bytes) ["idx"] sampleFiles.root ∧ fs'.cwd = [] := by
  have hsteps : (Files.steps "idx").reverse.tail = [] := by decide
  have hpieces : (("idx" : ByteString).pieces.reverse.dropWhile fun piece : ByteString => piece = "") =
      [("idx" : ByteString)] := by decide
  have hroot : Files.directoryAt sampleFiles.root [] [] = .ok ([], [("m", .dir [("a.go", .file sampleContent)])]) := by
    unfold Files.directoryAt
    rw [Files.follow]
    rfl
  have hput : sampleFiles.put? (.file bytes) ["idx"] =
      some { sampleFiles with
        root := .put (.file bytes) ["idx"] sampleFiles.root
        proper := Tree.isProper_put rfl (by decide) sampleFiles.proper } := dif_pos ⟨rfl, by decide⟩
  refine ⟨_, ?_, (Files.eq_put_of_put? hput).1, (Files.eq_put_of_put? hput).2⟩
  unfold Files.write
  rw [hsteps, hpieces]
  refine run_throw_if_eq_ok.mpr ⟨by decide, run_bind_eq_ok.mpr ⟨_, _, rfl, run_bind_eq_ok.mpr ⟨(), _, rfl, ?_⟩⟩⟩
  refine run_bind_eq_ok.mpr ⟨_, _, rfl, run_liftM_bind_eq_ok.mpr ⟨_, hroot, ?_⟩⟩
  refine run_throw_if_eq_ok.mpr ⟨by decide, run_throw_if_eq_ok.mpr ⟨by decide, ?_⟩⟩
  show (Files.place (.file bytes) ["idx"]).run.run sampleFiles = _
  rw [Files.run_place, hput]

theorem sampleFiles_written : ∃ fs' bytes,
    (writeIndex "idx" root ⟨.ofList [("", samplePackage root root)]⟩).run.run sampleFiles = (.ok (), fs') ∧
      fs'.isDir (Path.directory "idx") = true ∧ fs'.read "idx" = .ok bytes ∧
      Encoding.ofModule root [samplePackage root root] = .ok (bytes, [samplePackage root (samplePlace root)]) := by
  obtain ⟨bytes, hbytes⟩ := ofModule_samplePackage root h
  obtain ⟨fs', hput, hroot, hcwd⟩ := sampleFiles_put bytes
  have hdir : fs'.isDir (Path.directory "idx") = true := by
    have hdot : Path.directory "idx" = "." := by decide
    have hpieces : ("." : ByteString).pieces = [("." : ByteString)] := by decide
    have hhere : fs'.root.kindAt? [] = some .dir := by
      rw [hroot]
      rfl
    have hlocate : fs'.locate "." = .ok ⟨[], Files.maxLinks⟩ := by
      rw [Files.locate_eq_follow (by decide) (by decide), hpieces, hcwd, show Files.startOf [] _ = [] from rfl,
        Files.follow_dot hhere (Or.inr rfl), Files.follow]
    have hfind := Files.find_eq_ok.mpr ⟨_, hlocate, rfl⟩
    unfold Files.isDir
    rw [hdot, hfind, hroot]
    rfl
  refine ⟨fs', bytes, ?_, hdir, Files.read_written hput hdir, hbytes⟩
  exact run_liftM_bind_eq_ok.mpr ⟨_, hbytes, run_adapt_eq_ok.mpr hput⟩

end

theorem sampleFiles_found : ∃ fs' x, sampleFiles.moduleRecord "/m" = .ok ⟨.ofList [("", samplePackage "/m" "/m")]⟩ ∧
    (writeIndex "idx" "/m" ⟨.ofList [("", samplePackage "/m" "/m")]⟩).run.run sampleFiles = (.ok (), fs') ∧
    openIndex fs' "idx" "/m" = .ok x ∧ x.contains "" = true ∧
    ∀ ctx mode, x.resolve "" ctx mode = resolve (samplePackage "/m" "/m").view ctx mode := by
  have hm := sampleFiles_moduleRecord "/m" (Or.inr rfl)
  obtain ⟨fs', bytes, hw, hdir, -⟩ := sampleFiles_written "/m" (Or.inr rfl)
  obtain ⟨base, x, -, hbase, hx, hfound⟩ := found_of_write hm hw hdir
  obtain ⟨hcontains, hresolve, -⟩ := hfound "" _ rfl
  rw [hbase rfl] at hcontains hresolve
  exact ⟨fs', x, hm, hw, hx, hcontains, hresolve⟩

/-- Below a relative root the directories that were recorded are not found under their keys: the
index has the root's names in front of them. -/
theorem sampleFiles_not_found : ∃ m fs' x, sampleFiles.moduleRecord "m" = .ok m ∧
    (m.dirs.get? "").isSome ∧ (writeIndex "idx" "m" m).run.run sampleFiles = (.ok (), fs') ∧
    openIndex fs' "idx" "m" = .ok x ∧ x.dirs = ["m"] ∧ x.contains "" = false := by
  have hm := sampleFiles_moduleRecord "m" (Or.inl rfl)
  obtain ⟨fs', bytes, hw, -, hread, hbytes⟩ := sampleFiles_written "m" (Or.inl rfl)
  obtain ⟨x, hx, hdirs, -, -⟩ := opens_of_ofModule "m" hbytes (by decide)
  have hcontains : x.contains "" ≠ true := by
    rw [ne_eq, OpenIndex.contains_iff, hdirs]
    decide
  exact ⟨_, fs', x, hm, rfl, hw, openIndex_of_read hread hx, hdirs, by simpa using hcontains⟩

end PackageIndex.Command
