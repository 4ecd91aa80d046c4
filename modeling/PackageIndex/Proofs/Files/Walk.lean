/-
  PackageIndex.Proofs.Files.Walk — when a module's record has every directory below its root, and every file of each.

  The walk and the record of a directory make paths of what they read of names, and go on by
  them. A name that is no text is read with U+FFFD in it, and the path made of it leads to
  nothing or to another entry; so the record is the one of the tree if names are text
  (`surveyed_moduleRecord`), and need not be otherwise (`strangeFiles_not_surveyed`). What names that
  are text lead to is recorded in any case.

  A link is asked for by the path of its directory, which may have used up the links that a path
  can lead through. Then a link to a directory is recorded as a file (`deepFiles_not_surveyed`).
-/

import PackageIndex.Proofs.Files.Storing
import PackageIndex.Proofs.Files.Writing

namespace PackageIndex.Files

/-! ## The files of a directory -/

/-- Whether pieces lead to a directory from `here`, through `links` links at most. -/
def leadsToDir (fs : Files) (links : Nat) (here pieces : List ByteString) : Bool :=
  match follow fs.root links here pieces with
  | .ok r => (fs.root.entriesAt? r.place).isSome
  | .error _ => false

section

variable {fs : Files} {dir name : ByteString} {r : Reached} {entries : List (ByteString × Tree)} {links : Nat}
  {here : List ByteString}

theorem leadsToDir_mono {more : Nat} {ps : List ByteString} (hle : links ≤ more) (h : fs.leadsToDir links here ps = true) :
    fs.leadsToDir more here ps = true := by
  unfold leadsToDir at h
  split at h
  · rename_i r hr
    obtain ⟨left, rfl⟩ := Nat.exists_eq_add_of_le hle
    simpa only [leadsToDir, follow_add hr left] using h
  · cases h

theorem leadsToDir_entry {s : Tree} (h : fs.root.at? (here ++ [name]) = some s) (hs : ∀ target, s ≠ .link target) :
    fs.leadsToDir links here [name] = s.entries?.isSome := by
  have hname := isName_of_at? h
  have hkind : fs.root.kindAt? (here ++ [name]) = some s.kind := by
    rw [Tree.kindAt?, h]
    rfl
  have hlink : ∀ target, s.kind ≠ .link target := by
    intro target hk
    cases s with
    | link target' => exact hs target' rfl
    | _ => cases hk
  rw [leadsToDir, follow_entry ⟨hname.ne_empty, hname.ne_dot, hname.ne_dots⟩ hkind hlink, follow]
  simp only [Tree.entriesAt?, h]
  rfl

theorem leadsToDir_link (target : ByteString) (h : fs.root.at? (here ++ [name]) = some (.link target)) :
    fs.leadsToDir (links + 1) here [name] = fs.leadsToDir links (startOf here target) target.pieces := by
  have hname := isName_of_at? h
  have hkind : fs.root.kindAt? (here ++ [name]) = some (.link target) := by
    rw [Tree.kindAt?, h]
    rfl
  rw [leadsToDir, follow_link target ⟨hname.ne_empty, hname.ne_dot, hname.ne_dots⟩ hkind, List.append_nil, leadsToDir]

/-- An entry has a record if it leads to no directory from where the path of its directory has led. -/
theorem isRecorded_eq (hdir : fs.locate dir = .ok r) (he : fs.root.entriesAt? r.place = some entries)
    {e : ByteString × Tree} (hentry : e ∈ entries) : fs.isRecorded dir e = !fs.leadsToDir r.links r.place [e.1] := by
  obtain ⟨name, s⟩ := e
  have hproper := Tree.isProper_at? fs.proper (Tree.entriesAt?_eq_some.mp he)
  have hplace : fs.root.at? (r.place ++ [name]) = some s := by
    rw [Tree.at?_of_entriesAt? he, Tree.lookup_of_isProper hproper hentry]
  cases s with
  | dir es => rw [leadsToDir_entry hplace (by simp)]; rfl
  | file content => rw [leadsToDir_entry hplace (by simp)]; rfl
  | link target =>
    have hjoin := locate_join (isName_of_at? hplace) hdir (Tree.kindAt?_eq_dir.mpr (by rw [he]; rfl))
    show (!fs.isDir (dir.join name)) = _
    rw [Bool.not_inj_iff, Bool.eq_iff_iff, isDir_iff, hjoin, leadsToDir]
    split
    · rename_i r' hr'
      simp [hr']
    · rename_i fault hfault
      simp [hfault]

/-- The names in the directory at a place that lead to no directory, through the links that are left there. -/
def fileNames (fs : Files) (r : Reached) (entries : List (ByteString × Tree)) : List ByteString :=
  (entries.map (·.1)).filter fun name => !fs.leadsToDir r.links r.place [name]

theorem packageRecord_of_locate (hdir : fs.locate dir = .ok r) (he : fs.root.entriesAt? r.place = some entries) :
    (fs.packageRecord dir).error = "" ∧
      (fs.packageRecord dir).files.map (·.name) = (fs.fileNames r entries).map ByteString.lossy := by
  have hfind : fs.find dir = .ok (.dir entries) := find_eq_ok.mpr ⟨r, hdir, Tree.entriesAt?_eq_some.mp he⟩
  refine ⟨by simp only [packageRecord, hfind], ?_⟩
  have hfilter : entries.filter (fs.isRecorded dir) = entries.filter fun e => !fs.leadsToDir r.links r.place [e.1] :=
    List.filter_congr fun e hentry => isRecorded_eq hdir he hentry
  simp only [packageRecord, hfind, hfilter, fileNames, List.filter_map, List.map_map]
  exact List.map_congr_left fun e _ => fileRecord_name fs dir e.1.lossy

end

/-! ## The directories of a module -/

section

variable {fs : Files} {root : ByteString} {r : Reached} {names : List String}

/-- Names that are text are gone down by, if they lead to a directory. -/
theorem walked_of_entriesAt? (hroot : fs.locate root = .ok r)
    (h : (fs.root.entriesAt? (r.place ++ names.map ByteString.ofString)).isSome) : Walked fs root names := by
  induction names generalizing root r with
  | nil => exact .start root
  | cons n names ih =>
    rw [List.map_cons, List.append_cons] at h
    obtain ⟨es, hes⟩ := Option.isSome_iff_exists.mp (Tree.entriesAt?_of_append h)
    have hentry := Tree.entriesAt?_eq_some.mp hes
    obtain ⟨entries, he, hlookup⟩ := Tree.exists_entriesAt? hentry
    have hfind : fs.find root = .ok (.dir entries) := find_eq_ok.mpr ⟨r, hroot, Tree.entriesAt?_eq_some.mp he⟩
    refine .down (mem_subdirectories.mpr ⟨entries, n, es, hfind, mem_of_lookup hlookup, ?_⟩)
      (ih (locate_entry hroot hentry (by simp)) h)
    rw [ByteString.lossy_ofString]

/-- Where the names of directories are text, those that are gone down by lead to a directory. -/
theorem entriesAt?_of_walked (hroot : fs.locate root = .ok r)
    (htext : ∀ names, (fs.root.entriesAt? (r.place ++ names)).isSome → ∀ n ∈ names, n.IsText)
    (hdir : (fs.root.entriesAt? r.place).isSome) (h : Walked fs root names) :
    (fs.root.entriesAt? (r.place ++ names.map ByteString.ofString)).isSome := by
  induction h generalizing r with
  | start => simpa using hdir
  | @down path _ _ hname _ ih =>
    obtain ⟨entries, b, es, hfind, hentry, rfl⟩ := mem_subdirectories.mp hname
    obtain ⟨r', hr', hat⟩ := find_eq_ok.mp hfind
    cases hroot.symm.trans hr'
    have hplace : fs.root.at? (r.place ++ [b]) = some (.dir es) := by
      rw [Tree.at?_of_entriesAt? (Tree.entriesAt?_eq_some.mpr hat), Tree.lookup_of_isProper (isProper_of_find hfind) hentry]
    have hb : (fs.root.entriesAt? (r.place ++ [b])).isSome := by rw [Tree.entriesAt?_eq_some.mpr hplace]; rfl
    have hread : (b.lossy : ByteString) = b := htext [b] hb b (List.mem_singleton_self b)
    have hjoin : fs.locate (path.join b.lossy) = .ok ⟨r.place ++ [b], r.links⟩ := by
      rw [hread]
      exact locate_entry hroot hplace (by simp)
    rw [List.map_cons, hread, List.append_cons]
    refine ih hjoin (fun names hnames n hn => ?_) hb
    rw [← List.append_cons] at hnames
    exact htext (b :: names) hnames n (List.mem_cons_of_mem b hn)

variable {m : ModuleRecord} (hm : fs.moduleRecord root = .ok m) (hroot : fs.locate root = .ok r)
include hm hroot

/-- What is recorded under a key was read at the directory that the key's names lead to. -/
theorem get?_moduleRecord (names : List String) {entries : List (ByteString × Tree)}
    (he : fs.root.entriesAt? (r.place ++ names.map ByteString.ofString) = some entries) :
    ∃ p, m.dirs.get? ("/".intercalate names) = some p ∧ p.error = "" ∧
      p.files.map (·.name) =
        (fs.fileNames ⟨r.place ++ names.map ByteString.ofString, r.links⟩ entries).map ByteString.lossy := by
  have hsome : (fs.root.entriesAt? (r.place ++ names.map ByteString.ofString)).isSome := by rw [he]; rfl
  have hwalked := walked_of_entriesAt? hroot hsome
  have hkey := (mem_keys_moduleRecord hm).mpr ⟨names, hwalked, rfl⟩
  obtain ⟨p, hp⟩ := Option.isSome_iff_exists.mp (SortedMap.mem_keys_iff.mp hkey)
  obtain ⟨names', hwalked', hspelt, rfl⟩ := mem_moduleRecord hm (mem_of_lookup hp)
  cases Path.intercalate_inj (fun n hn => (hwalked.isName n hn).isPart) (fun n hn => (hwalked'.isName n hn).isPart) hspelt
  exact ⟨_, hp, packageRecord_of_locate (locate_foldl hroot hsome) he⟩

end

/-! ## The module -/

/-- One record for each entry that is no directory and leads to none, under its name, and no other. -/
structure ListsFiles (fs : Files) (place : List ByteString) (entries : List (ByteString × Tree))
    (p : PackageRecord) : Prop where
  nodup : (p.files.map (·.name)).Nodup
  mem_iff : ∀ name : ByteString,
    (∃ f ∈ p.files, (f.name : ByteString) = name) ↔ name ∈ fs.fileNames ⟨place, maxLinks⟩ entries

/-- The record has the directories at and below `root`, told by the names that lead to them without a link, and the
files of each. -/
structure Surveyed (fs : Files) (root : List ByteString) (m : ModuleRecord) : Prop where
  mem_keys : ∀ key : ByteString, (∃ k ∈ m.dirs.keys, (k : ByteString) = key) ↔
    ∃ names, (fs.root.entriesAt? (root ++ names)).isSome ∧ key = .spelt names
  error : ∀ p ∈ m.packages, p.error = ""
  files : ∀ names entries, fs.root.entriesAt? (root ++ names) = some entries →
    ∃ (k : String) (p : PackageRecord), (k : ByteString) = .spelt names ∧ m.dirs.get? k = some p ∧
      fs.ListsFiles (root ++ names) entries p

/-- What is at and below the place where a root has led can be told by its path. -/
structure Legible (fs : Files) (root : Reached) : Prop where
  dirs : ∀ names, (fs.root.entriesAt? (root.place ++ names)).isSome → ∀ n ∈ names, n.IsText
  files : ∀ names entries, fs.root.entriesAt? (root.place ++ names) = some entries →
    ∀ n ∈ fs.fileNames ⟨root.place ++ names, maxLinks⟩ entries, n.IsText
  /-- The links that the root's path has left are enough for those to directories. -/
  links : ∀ names entries, fs.root.entriesAt? (root.place ++ names) = some entries →
    fs.fileNames ⟨root.place ++ names, root.links⟩ entries = fs.fileNames ⟨root.place ++ names, maxLinks⟩ entries

section

variable {fs : Files} {r : Reached} {entries : List (ByteString × Tree)} {name : ByteString}

theorem mem_fileNames : name ∈ fs.fileNames r entries ↔
    name ∈ entries.map (·.1) ∧ fs.leadsToDir r.links r.place [name] = false := by
  rw [fileNames, List.mem_filter, Bool.not_eq_true']

/-- With fewer links left more entries lead to no directory. -/
theorem fileNames_subset {place : List ByteString} {links more : Nat} (hle : links ≤ more)
    (h : name ∈ fs.fileNames ⟨place, more⟩ entries) : name ∈ fs.fileNames ⟨place, links⟩ entries := by
  rw [mem_fileNames] at h ⊢
  refine ⟨h.1, ?_⟩
  rw [← Bool.not_eq_true]
  exact fun hleads => Bool.false_ne_true (h.2.symm.trans (leadsToDir_mono hle hleads))

end

/-- Which records a directory has is told by their names. -/
theorem listsFiles_iff {fs : Files} {place : List ByteString} {entries : List (ByteString × Tree)} {p : PackageRecord}
    {names : List ByteString} (h : p.files.map (·.name) = names.map ByteString.lossy) : fs.ListsFiles place entries p ↔
      (names.map ByteString.lossy).Nodup ∧ ∀ name,
        (∃ n ∈ names, (n.lossy : ByteString) = name) ↔ name ∈ fs.fileNames ⟨place, maxLinks⟩ entries := by
  have hread (name : ByteString) :
      (∃ f ∈ p.files, (f.name : ByteString) = name) ↔ ∃ n ∈ names, (n.lossy : ByteString) = name := by
    have hfiles : (∃ s : String, s ∈ p.files.map (·.name) ∧ (s : ByteString) = name) ↔
        ∃ f ∈ p.files, (f.name : ByteString) = name := by simp
    rw [← hfiles, h]
    simp
  rw [← h]
  constructor
  · exact fun hlists => ⟨hlists.nodup, fun name => (hread name).symm.trans (hlists.mem_iff name)⟩
  · exact fun ⟨hnodup, hmem⟩ => ⟨hnodup, fun name => (hread name).trans (hmem name)⟩

theorem nodup_fileNames {fs : Files} {place : List ByteString} {links : Nat} {entries : List (ByteString × Tree)}
    (he : fs.root.entriesAt? place = some entries) : (fs.fileNames ⟨place, links⟩ entries).Nodup := by
  have hproper := Tree.isProper_at? fs.proper (Tree.entriesAt?_eq_some.mp he)
  exact (Tree.isProper_dir.mp hproper).1.filter _

section

variable {fs : Files} {root : ByteString} {r : Reached} {m : ModuleRecord}
  (hm : fs.moduleRecord root = .ok m) (hroot : fs.locate root = .ok r)

theorem links_le_maxLinks {path : ByteString} (h : fs.locate path = .ok r) : r.links ≤ maxLinks := by
  obtain ⟨-, -, h⟩ := follow_of_locate h
  exact links_le h

include hm hroot

theorem surveyed_of_legible (hdir : (fs.root.entriesAt? r.place).isSome) (h : fs.Legible r) : fs.Surveyed r.place m := by
  have hspelt {names : List ByteString} (hsome : (fs.root.entriesAt? (r.place ++ names)).isSome) :
      ∃ strings : List String, strings.map ByteString.ofString = names :=
    ⟨names.map ByteString.lossy, ByteString.map_lossy (h.dirs names hsome)⟩
  constructor
  · intro key
    constructor
    · rintro ⟨k, hk, rfl⟩
      obtain ⟨names, hwalked, rfl⟩ := (mem_keys_moduleRecord hm).mp hk
      exact ⟨_, entriesAt?_of_walked hroot h.dirs hdir hwalked, ByteString.ofString_intercalate names⟩
    · rintro ⟨names, hsome, rfl⟩
      obtain ⟨strings, rfl⟩ := hspelt hsome
      exact ⟨_, (mem_keys_moduleRecord hm).mpr ⟨strings, walked_of_entriesAt? hroot hsome, rfl⟩,
        ByteString.ofString_intercalate strings⟩
  · intro p hp
    obtain ⟨⟨k, p⟩, hentry, rfl⟩ := List.mem_map.mp hp
    obtain ⟨names, hwalked, rfl, -⟩ := mem_moduleRecord hm hentry
    obtain ⟨entries, he⟩ := Option.isSome_iff_exists.mp (entriesAt?_of_walked hroot h.dirs hdir hwalked)
    obtain ⟨p', hp', herror, -⟩ := get?_moduleRecord hm hroot _ he
    cases (SortedMap.mem_entries_iff.mp hentry).symm.trans hp'
    exact herror
  · intro names entries he
    obtain ⟨strings, rfl⟩ := hspelt (by rw [he]; rfl)
    obtain ⟨p, hp, -, hfiles⟩ := get?_moduleRecord hm hroot _ he
    rw [h.links _ _ he] at hfiles
    have hread := ByteString.map_lossy (h.files _ _ he)
    refine ⟨_, p, ByteString.ofString_intercalate strings, hp, (listsFiles_iff hfiles).mpr ⟨?_, fun name => ?_⟩⟩
    · refine (nodup_fileNames he).map_on fun x hx y hy hxy => ?_
      rw [← h.files _ _ he x hx, ← h.files _ _ he y hy, hxy]
    · refine Iff.trans ?_ (iff_of_eq (congrArg (name ∈ ·) hread))
      rw [List.map_map, List.mem_map]
      rfl

theorem legible_of_surveyed (h : fs.Surveyed r.place m) : fs.Legible r := by
  have hdirs (names : List ByteString) (hsome : (fs.root.entriesAt? (r.place ++ names)).isSome) :
      ∀ n ∈ names, n.IsText := by
    obtain ⟨k, -, hk⟩ := (h.mem_keys (.spelt names)).mpr ⟨names, hsome, rfl⟩
    obtain ⟨entries, he⟩ := Option.isSome_iff_exists.mp hsome
    have hnames := Tree.isName_of_entriesAt? fs.proper he
    exact ByteString.isText_of_spelt (fun n hn => (hnames n (List.mem_append_right _ hn)).no_slash) hk
  have hfiles (names : List ByteString) (entries : List (ByteString × Tree))
      (he : fs.root.entriesAt? (r.place ++ names) = some entries) :
      ((fs.fileNames ⟨r.place ++ names, r.links⟩ entries).map ByteString.lossy).Nodup ∧ ∀ name,
        (∃ n ∈ fs.fileNames ⟨r.place ++ names, r.links⟩ entries, (n.lossy : ByteString) = name) ↔
          name ∈ fs.fileNames ⟨r.place ++ names, maxLinks⟩ entries := by
    have hread := ByteString.map_lossy (hdirs names (by rw [he]; rfl))
    obtain ⟨k, p, hk, hp, hlists⟩ := h.files names entries he
    rw [← hread, ← ByteString.ofString_intercalate, ByteString.ofString_inj] at hk
    rw [← hread] at he
    obtain ⟨p', hp', -, hnames⟩ := get?_moduleRecord hm hroot _ he
    cases hp.symm.trans (hk ▸ hp')
    rw [hread] at hnames
    exact (listsFiles_iff hnames).mp hlists
  refine ⟨hdirs, ?_, ?_⟩
  · intro names entries he n hn
    obtain ⟨n', -, rfl⟩ := ((hfiles names entries he).2 n).mpr hn
    exact ByteString.isText_ofString _
  · intro names entries he
    obtain ⟨hnodup, hmem⟩ := hfiles names entries he
    have hsubset {n : ByteString} (hn : n ∈ fs.fileNames ⟨r.place ++ names, maxLinks⟩ entries) :
        n ∈ fs.fileNames ⟨r.place ++ names, r.links⟩ entries := fileNames_subset (links_le_maxLinks hroot) hn
    have hiff (n : ByteString) : n ∈ fs.fileNames ⟨r.place ++ names, r.links⟩ entries ↔
        n ∈ fs.fileNames ⟨r.place ++ names, maxLinks⟩ entries := by
      refine ⟨fun hn => ?_, hsubset⟩
      -- what is read of the name is a file's too, and no two records have one name
      have hread := (hmem n.lossy).mp ⟨n, hn, rfl⟩
      rw [List.inj_on_of_nodup_map hnodup hn (hsubset hread) (ByteString.lossy_ofString _).symm]
      exact hread
    refine List.filter_congr fun n hn => ?_
    have hn' := hiff n
    rw [mem_fileNames, mem_fileNames, and_iff_right hn, and_iff_right hn] at hn'
    rw [Bool.eq_iff_iff, Bool.not_eq_true', Bool.not_eq_true']
    exact hn'

end

/-- The record is that of the tree if everything in the tree can be told by its path, and not otherwise. What names that
are text lead to is recorded in any case. -/
theorem surveyed_moduleRecord {fs : Files} {root : ByteString} {r : Reached} (hroot : fs.locate root = .ok r)
    (hdir : (fs.root.entriesAt? r.place).isSome) :
    ∃ m, fs.moduleRecord root = .ok m ∧ (fs.Surveyed r.place m ↔ fs.Legible r) ∧
      ∀ (names : List String) (entries : List (ByteString × Tree)),
        fs.root.entriesAt? (r.place ++ names.map ByteString.ofString) = some entries →
          ∃ p, m.dirs.get? ("/".intercalate names) = some p ∧ p.error = "" ∧ p.files.map (·.name) =
            (fs.fileNames ⟨r.place ++ names.map ByteString.ofString, r.links⟩ entries).map ByteString.lossy := by
  obtain ⟨entries, he⟩ := Option.isSome_iff_exists.mp hdir
  have hfind : fs.find root = .ok (.dir entries) := find_eq_ok.mpr ⟨r, hroot, Tree.entriesAt?_eq_some.mp he⟩
  have hm := moduleRecord_eq_ok.mpr ⟨entries, hfind, rfl⟩
  refine ⟨_, hm, ⟨legible_of_surveyed hm hroot, surveyed_of_legible hm hroot hdir⟩, ?_⟩
  exact fun names entries he => get?_moduleRecord hm hroot _ he

/-! ## A tree with links -/

def subEntries : List (ByteString × Tree) := [("b.go", .file []), ("up", .link "..")]

/-- Links to a directory, to a file, to themselves and up to where they stand. -/
def linkedEntries : List (ByteString × Tree) :=
  [("sub", .dir subEntries), ("a.go", .file []), ("alias", .link "sub"), ("other.go", .link "a.go"), ("self", .link "self")]

def linkedFiles : Files := { root := .dir [("r", .link "m"), ("m", .dir linkedEntries)], proper := rfl }

theorem linkedFiles_fileNames (links : Nat) :
    linkedFiles.fileNames ⟨["m"], links + 1⟩ linkedEntries = [("a.go" : ByteString), "other.go", "self"] ∧
      linkedFiles.fileNames ⟨["m", "sub"], links + 1⟩ subEntries = [("b.go" : ByteString)] := by
  have hsub (links : Nat) : linkedFiles.leadsToDir links ["m"] [("sub" : ByteString)] = true :=
    leadsToDir_entry (s := .dir subEntries) rfl (by simp)
  have hgo (links : Nat) : linkedFiles.leadsToDir links ["m"] [("a.go" : ByteString)] = false :=
    leadsToDir_entry (s := .file []) rfl (by simp)
  have halias : linkedFiles.leadsToDir (links + 1) ["m"] [("alias" : ByteString)] = true := by
    rw [leadsToDir_link "sub" rfl]
    exact hsub links
  have hother : linkedFiles.leadsToDir (links + 1) ["m"] [("other.go" : ByteString)] = false := by
    rw [leadsToDir_link "a.go" rfl]
    exact hgo links
  have hself (links : Nat) : linkedFiles.leadsToDir links ["m"] [("self" : ByteString)] = false := by
    induction links with
    | zero =>
      rw [leadsToDir, follow]
      rfl
    | succ links ih =>
      rw [leadsToDir_link "self" rfl]
      exact ih
  have hb : linkedFiles.leadsToDir (links + 1) ["m", "sub"] [("b.go" : ByteString)] = false :=
    leadsToDir_entry (s := .file []) rfl (by simp)
  have hup : linkedFiles.leadsToDir (links + 1) ["m", "sub"] [("up" : ByteString)] = true := by
    have hpieces : (".." : ByteString).pieces = [(".." : ByteString)] := by decide
    rw [leadsToDir_link ".." rfl, hpieces, leadsToDir, follow_up rfl, follow]
    rfl
  constructor
  · simp [fileNames, linkedEntries, hsub, hgo, halias, hother, hself]
  · simp [fileNames, subEntries, hb, hup]

theorem linkedFiles_directories {names : List ByteString} {entries : List (ByteString × Tree)}
    (h : linkedFiles.root.entriesAt? (("m" : ByteString) :: names) = some entries) :
    names = [] ∧ entries = linkedEntries ∨ names = [("sub" : ByteString)] ∧ entries = subEntries := by
  have hbelow {es : List (ByteString × Tree)} {n : ByteString} {names : List ByteString}
      (h : (Tree.dir es).at? (n :: names) = some (.dir entries)) :
      ∃ s, (n, s) ∈ es ∧ s.at? names = some (.dir entries) := by
    rw [Tree.at?_cons, Option.bind_eq_some_iff] at h
    obtain ⟨s, hs, h⟩ := h
    exact ⟨s, mem_of_lookup hs, h⟩
  have hleaf {s : Tree} {names : List ByteString} (hs : s.entries? = none) : s.at? names ≠ some (.dir entries) := by
    intro h
    cases names with
    | nil =>
      cases h
      cases hs
    | cons n names =>
      rw [Tree.at?_cons, hs] at h
      cases h
  have hat : (Tree.dir linkedEntries).at? names = some (.dir entries) := Tree.entriesAt?_eq_some.mp h
  cases names with
  | nil =>
    cases hat
    exact Or.inl ⟨rfl, rfl⟩
  | cons n names =>
    obtain ⟨s, hentry, hat⟩ := hbelow hat
    simp only [linkedEntries, List.mem_cons, List.not_mem_nil, or_false, Prod.mk.injEq] at hentry
    rcases hentry with ⟨rfl, rfl⟩ | ⟨-, rfl⟩ | ⟨-, rfl⟩ | ⟨-, rfl⟩ | ⟨-, rfl⟩
    · cases names with
      | nil =>
        cases hat
        exact Or.inr ⟨rfl, rfl⟩
      | cons n names =>
        obtain ⟨s, hentry, hat⟩ := hbelow hat
        simp only [subEntries, List.mem_cons, List.not_mem_nil, or_false, Prod.mk.injEq] at hentry
        rcases hentry with ⟨-, rfl⟩ | ⟨-, rfl⟩ <;> exact absurd hat (hleaf rfl)
    all_goals exact absurd hat (hleaf rfl)

/-- The root is behind a link. -/
theorem linkedFiles_surveyed : linkedFiles.locate "r/" = .ok ⟨["m"], 39⟩ ∧ (linkedFiles.root.entriesAt? ["m"]).isSome ∧
    ∃ m, linkedFiles.moduleRecord "r/" = .ok m ∧ linkedFiles.Surveyed ["m"] m := by
  have hlocate : linkedFiles.locate "r/" = .ok ⟨["m"], 39⟩ := by
    have hpieces : ("r/" : ByteString).pieces = [("r" : ByteString), ""] := by decide
    have htarget : ("m" : ByteString).pieces = [("m" : ByteString)] := by decide
    rw [locate_eq_follow (by decide) (by decide), hpieces, show startOf _ _ = [] from rfl, maxLinks,
      follow_link "m" (by decide) rfl, htarget, show startOf _ _ = [] from rfl]
    show follow linkedFiles.root 39 [] [("m" : ByteString), ""] = _
    rw [follow_entry (k := .dir) (by decide) rfl (by simp), follow_dot rfl (Or.inl rfl), follow]
    rfl
  have hlegible : linkedFiles.Legible ⟨["m"], 39⟩ := by
    refine ⟨fun names hsome => ?_, fun names entries he => ?_, fun names entries he => ?_⟩
    · obtain ⟨entries, he⟩ := Option.isSome_iff_exists.mp hsome
      rcases linkedFiles_directories he with ⟨rfl, -⟩ | ⟨rfl, -⟩ <;> simp [ByteString.isText_ofString]
    · obtain ⟨hm, hsub⟩ := linkedFiles_fileNames 39
      rcases linkedFiles_directories he with ⟨rfl, rfl⟩ | ⟨rfl, rfl⟩
      · rw [List.append_nil, maxLinks, hm]
        simp [ByteString.isText_ofString]
      · show ∀ n ∈ linkedFiles.fileNames ⟨["m", "sub"], 39 + 1⟩ subEntries, n.IsText
        rw [hsub]
        simp [ByteString.isText_ofString]
    · obtain ⟨hm, hsub⟩ := linkedFiles_fileNames 39
      obtain ⟨hm', hsub'⟩ := linkedFiles_fileNames 38
      rcases linkedFiles_directories he with ⟨rfl, rfl⟩ | ⟨rfl, rfl⟩
      · exact hm'.trans hm.symm
      · exact hsub'.trans hsub.symm
  obtain ⟨m, hm, hsurveyed, -⟩ := surveyed_moduleRecord hlocate rfl
  exact ⟨hlocate, rfl, m, hm, hsurveyed.mpr hlegible⟩

/-! ## Names that are no text -/

def strangeEntries : List (ByteString × Tree) :=
  [(⟨[0xFF]⟩, .dir [("x.go", .file [])]), (⟨[0xFE]⟩, .dir [("y.go", .file [])])]

def strangeFiles : Files := { root := .dir [("m", .dir strangeEntries)], proper := rfl }

theorem strangeFiles_locate : strangeFiles.locate "m" = .ok ⟨["m"], maxLinks⟩ := by
  have hpieces : ("m" : ByteString).pieces = [("m" : ByteString)] := by decide
  rw [locate_eq_follow (by decide) (by decide), hpieces, show startOf _ _ = [] from rfl,
    follow_entry (k := .dir) (by decide) rfl (by simp), follow]
  rfl

theorem strangeFiles_find : strangeFiles.find "m" = .ok (.dir strangeEntries) ∧
    strangeFiles.find (("m" : ByteString).join "\ufffd") = .error .notFound := by
  refine ⟨find_eq_ok.mpr ⟨_, strangeFiles_locate, rfl⟩, ?_⟩
  have hname : ("\ufffd" : ByteString).IsName := by decide
  have hfollow : follow strangeFiles.root maxLinks ["m"] [("\ufffd" : ByteString)] = .error .notFound := by
    rw [follow]
    rfl
  unfold find
  rw [locate_join hname strangeFiles_locate rfl, hfollow]
  rfl

theorem strangeFiles_walked {names : List String} :
    Walked strangeFiles "m" names ↔ names = [] ∨ names = ["\ufffd"] := by
  obtain ⟨hroot, hmissing⟩ := strangeFiles_find
  have hlossy : (⟨[0xFF]⟩ : ByteString).lossy = "\ufffd" ∧ (⟨[0xFE]⟩ : ByteString).lossy = "\ufffd" := by
    decide +kernel
  have hdown (name : String) : name ∈ strangeFiles.subdirectories "m" ↔ name = "\ufffd" := by
    simp [subdirectories, hroot, strangeEntries, Tree.entries?, hlossy]
  have hstop : strangeFiles.subdirectories (("m" : ByteString).join "\ufffd") = [] := by simp [subdirectories, hmissing]
  constructor
  · intro h
    cases h with
    | start => exact Or.inl rfl
    | down hname h =>
      cases (hdown _).mp hname
      cases h with
      | start => exact Or.inr rfl
      | down hname h =>
        rw [hstop] at hname
        cases hname
  · rintro (rfl | rfl)
    · exact .start _
    · exact .down ((hdown _).mpr rfl) (.start _)

/-- Both are read as U+FFFD, so they share a key. No directory has that name, so the record has an error, and neither
file is in a record. -/
theorem strangeFiles_not_surveyed : ∃ m, strangeFiles.locate "m" = .ok ⟨["m"], maxLinks⟩ ∧
    strangeFiles.moduleRecord "m" = .ok m ∧ (∀ k, k ∈ m.dirs.keys ↔ k = "" ∨ k = "\ufffd") ∧
    (∃ p, m.dirs.get? "\ufffd" = some p ∧ p.error = "cannot find package \".\" in:\n\tm/\ufffd") ∧
    (∀ p ∈ m.packages, p.files = []) ∧ ¬ strangeFiles.Surveyed ["m"] m := by
  obtain ⟨hroot, hmissing⟩ := strangeFiles_find
  obtain ⟨m, hm⟩ : ∃ m, strangeFiles.moduleRecord "m" = .ok m := ⟨_, moduleRecord_eq_ok.mpr ⟨_, hroot, rfl⟩⟩
  have hkeys (k : String) : k ∈ m.dirs.keys ↔ k = "" ∨ k = "\ufffd" := by
    rw [mem_keys_moduleRecord hm]
    simp only [strangeFiles_walked, or_and_right, exists_or, exists_eq_left]
    rfl
  have hpackage : (strangeFiles.packageRecord "m").files = [] := by
    simp only [packageRecord, hroot]
    rfl
  have hnone : (strangeFiles.packageRecord (("m" : ByteString).join "\ufffd")).files = [] ∧
      (strangeFiles.packageRecord (("m" : ByteString).join "\ufffd")).error =
        "cannot find package \".\" in:\n\tm/\ufffd" := by
    have hpath : (("m" : ByteString).join "\ufffd").lossy = "m/\ufffd" := by
      rw [← ByteString.ofString_join, ByteString.lossy_ofString]
      decide
    refine ⟨by simp only [packageRecord, hmissing], ?_⟩
    simp only [packageRecord, hmissing, hpath]
    rfl
  have hrecords (k : String) (p : PackageRecord) (hp : (k, p) ∈ m.dirs.entries) :
      k = "" ∧ p = strangeFiles.packageRecord "m" ∨
        k = "\ufffd" ∧ p = strangeFiles.packageRecord (("m" : ByteString).join "\ufffd") := by
    obtain ⟨names, hwalked, rfl, rfl⟩ := mem_moduleRecord hm hp
    rcases strangeFiles_walked.mp hwalked with rfl | rfl
    · exact Or.inl ⟨rfl, rfl⟩
    · exact Or.inr ⟨rfl, rfl⟩
  obtain ⟨p, hp⟩ := Option.isSome_iff_exists.mp (SortedMap.mem_keys_iff.mp ((hkeys "\ufffd").mpr (Or.inr rfl)))
  have herror : p.error = "cannot find package \".\" in:\n\tm/\ufffd" := by
    rcases hrecords _ _ (mem_of_lookup hp) with ⟨hk, -⟩ | ⟨-, rfl⟩
    · exact absurd hk (by decide)
    · exact hnone.2
  refine ⟨m, strangeFiles_locate, hm, hkeys, ⟨p, hp, herror⟩, fun q hq => ?_, fun h => ?_⟩
  · obtain ⟨⟨k, q⟩, hentry, rfl⟩ := List.mem_map.mp hq
    rcases hrecords k q hentry with ⟨-, rfl⟩ | ⟨-, rfl⟩
    · exact hpackage
    · exact hnone.1
  · have hempty := h.error p (List.mem_map_of_mem (f := (·.2)) (mem_of_lookup hp))
    rw [herror] at hempty
    exact absurd hempty (by decide)

/-! ## A path with forty links -/

def deepEntries : List (ByteString × Tree) := [("a.go", .file []), ("l.go", .link ".")]

def deepFiles : Files := { root := .dir [("m", .dir deepEntries)], proper := rfl }

/-- The directory, by way of its link to itself. -/
def deepRoot : String := "/".intercalate ("m" :: List.replicate maxLinks "l.go")

theorem deepFiles_follow (links : Nat) :
    follow deepFiles.root links ["m"] (List.replicate links ("l.go" : ByteString)) = .ok ⟨["m"], 0⟩ := by
  induction links with
  | zero =>
    rw [List.replicate_zero, follow]
  | succ links ih =>
    have hdot : ("." : ByteString).pieces = [("." : ByteString)] := by decide
    rw [List.replicate_succ, follow_link "." (by decide) rfl, hdot, List.singleton_append]
    exact (follow_dot rfl (Or.inr rfl)).trans ih

theorem deepFiles_locate : deepFiles.locate deepRoot = .ok ⟨["m"], 0⟩ := by
  have hparts : ∀ s ∈ "m" :: List.replicate maxLinks "l.go", Path.IsPart s := by
    have hm : Path.IsPart "m" := ⟨by decide, by decide⟩
    have hl : Path.IsPart "l.go" := ⟨by decide, by decide⟩
    exact List.forall_mem_cons.mpr ⟨hm, fun s hs => List.eq_of_mem_replicate hs ▸ hl⟩
  have hpieces : (deepRoot : ByteString).pieces = ("m" : ByteString) :: List.replicate maxLinks ("l.go" : ByteString) := by
    rw [ByteString.pieces_ofString, deepRoot, Path.pieces_intercalate hparts (List.cons_ne_nil _ _)]
    simp
  have hne : (deepRoot : ByteString) ≠ "" := by
    intro h
    rw [h] at hpieces
    exact absurd hpieces (by decide)
  have hstart : startOf deepFiles.cwd deepRoot = [] := by
    unfold startOf
    split <;> rfl
  have hzero : 0 ∉ (deepRoot : ByteString).bytes := by
    apply ByteString.zero_not_mem_of_pieces
    rw [hpieces]
    refine List.forall_mem_cons.mpr ⟨by decide, fun piece hpiece => ?_⟩
    rw [List.eq_of_mem_replicate hpiece]
    decide
  rw [locate_eq_follow hne hzero, hpieces, hstart, follow_entry (k := .dir) (by decide) rfl (by simp)]
  exact deepFiles_follow maxLinks

/-- No link is left for the one in the directory, which so is recorded as a file. -/
theorem deepFiles_not_surveyed : ∃ m, deepFiles.locate deepRoot = .ok ⟨["m"], 0⟩ ∧
    deepFiles.moduleRecord deepRoot = .ok m ∧
    (∃ p, m.dirs.get? "" = some p ∧ p.files.map (·.name) = ["a.go", "l.go"]) ∧ ¬ deepFiles.Surveyed ["m"] m := by
  have hentries : deepFiles.root.entriesAt? ["m"] = some deepEntries := rfl
  have hfind : deepFiles.find deepRoot = .ok (.dir deepEntries) := find_eq_ok.mpr ⟨_, deepFiles_locate, rfl⟩
  obtain ⟨m, hm⟩ : ∃ m, deepFiles.moduleRecord deepRoot = .ok m := ⟨_, moduleRecord_eq_ok.mpr ⟨_, hfind, rfl⟩⟩
  have hgo (links : Nat) : deepFiles.leadsToDir links ["m"] [("a.go" : ByteString)] = false :=
    leadsToDir_entry (s := .file []) rfl (by simp)
  have hleft : deepFiles.fileNames ⟨["m"], 0⟩ deepEntries = [("a.go" : ByteString), "l.go"] := by
    have hlink : deepFiles.leadsToDir 0 ["m"] [("l.go" : ByteString)] = false := by
      rw [leadsToDir, follow]
      rfl
    simp [fileNames, deepEntries, hgo, hlink]
  have hall : deepFiles.fileNames ⟨["m"], maxLinks⟩ deepEntries = [("a.go" : ByteString)] := by
    have hlink : deepFiles.leadsToDir maxLinks ["m"] [("l.go" : ByteString)] = true := by
      have hdot : ("." : ByteString).pieces = [("." : ByteString)] := by decide
      rw [maxLinks, leadsToDir_link "." rfl, hdot, leadsToDir, follow_dot rfl (Or.inr rfl), follow]
      rfl
    simp [fileNames, deepEntries, hgo, hlink]
  refine ⟨m, deepFiles_locate, hm, ?_, fun h => ?_⟩
  · obtain ⟨p, hp, -, hnames⟩ := get?_moduleRecord hm deepFiles_locate [] hentries
    refine ⟨p, hp, hnames.trans ?_⟩
    show (deepFiles.fileNames ⟨["m"], 0⟩ deepEntries).map ByteString.lossy = _
    simp [hleft]
  · have hlinks : deepFiles.fileNames ⟨["m"], 0⟩ deepEntries = deepFiles.fileNames ⟨["m"], maxLinks⟩ deepEntries :=
      (legible_of_surveyed hm deepFiles_locate h).links [] deepEntries hentries
    rw [hleft, hall] at hlinks
    exact absurd hlinks (by decide)

end PackageIndex.Files
