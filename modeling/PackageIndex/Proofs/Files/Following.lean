/-
  PackageIndex.Proofs.Files.Following — where a path leads, piece by piece.

  - `follow_append`: what pieces lead to is where the pieces after them go on.
  - `locate_join`: so a name leads on from the place of the directory whose path it is joined to.
  - `locate_foldl`: the path of a directory below a root leads to it, however the root is found.
-/

import PackageIndex.Files.Basic
import PackageIndex.Proofs.Files.ByteString
import PackageIndex.Proofs.Files.Tree

namespace PackageIndex.Files

/-! ## One piece -/

section

variable {t : Tree} {links : Nat} {here rest : List ByteString} {piece : ByteString}

theorem follow_dot (h : t.kindAt? here = some .dir) (hpiece : piece = "" ∨ piece = ".") :
    follow t links here (piece :: rest) = follow t links here rest := by
  obtain ⟨entries, he⟩ := Option.isSome_iff_exists.mp (Tree.kindAt?_eq_dir.mp h)
  rw [follow]
  simp only [he, if_pos hpiece]

theorem follow_up (h : t.kindAt? here = some .dir) :
    follow t links here (".." :: rest) = follow t links here.dropLast rest := by
  obtain ⟨entries, he⟩ := Option.isSome_iff_exists.mp (Tree.kindAt?_eq_dir.mp h)
  have hdots : ¬ ((".." : ByteString) = "" ∨ (".." : ByteString) = ".") := by decide
  rw [follow]
  simp only [he, if_neg hdots, if_true]

theorem follow_link (target : ByteString) (hpiece : piece ≠ "" ∧ piece ≠ "." ∧ piece ≠ "..")
    (h : t.kindAt? (here ++ [piece]) = some (.link target)) :
    follow t (links + 1) here (piece :: rest) = follow t links (startOf here target) (target.pieces ++ rest) := by
  obtain ⟨s, hs, hkind⟩ := Option.map_eq_some_iff.mp h
  obtain ⟨entries, he, hlookup⟩ := Tree.exists_entriesAt? hs
  cases s with
  | link target' =>
    cases hkind
    rw [follow]
    simp [he, hlookup, hpiece.1, hpiece.2.1, hpiece.2.2]
  | _ => cases hkind

theorem follow_entry {k : Tree.Kind} (hpiece : piece ≠ "" ∧ piece ≠ "." ∧ piece ≠ "..")
    (h : t.kindAt? (here ++ [piece]) = some k) (hk : ∀ target, k ≠ .link target) :
    follow t links here (piece :: rest) = follow t links (here ++ [piece]) rest := by
  obtain ⟨s, hs, rfl⟩ := Option.map_eq_some_iff.mp h
  obtain ⟨entries, he, hlookup⟩ := Tree.exists_entriesAt? hs
  rw [follow]
  cases s with
  | link target => exact absurd rfl (hk target)
  | _ => simp [he, hlookup, hpiece.1, hpiece.2.1, hpiece.2.2]

theorem follow_blocked (h : t.kindAt? here ≠ some .dir) (hrest : rest ≠ []) :
    follow t links here rest = .error .notDirectory := by
  obtain ⟨piece, more, rfl⟩ := List.exists_cons_of_ne_nil hrest
  rw [follow]
  cases he : t.entriesAt? here with
  | none => rfl
  | some entries => exact absurd (Tree.kindAt?_eq_dir.mpr (by rw [he]; rfl)) h

end

/-! ## Pieces after others -/

section

variable {t : Tree} {links : Nat} {here : List ByteString}

theorem follow_append (t : Tree) (links : Nat) (here ps qs : List ByteString) :
    follow t links here (ps ++ qs) = follow t links here ps >>= fun r => follow t r.links r.place qs := by
  fun_induction follow t links here ps with
  | case1 => rfl
  | case2 links here piece rest he =>
    rw [List.cons_append, follow]
    simp only [he]
    rfl
  | case3 links here piece rest entries he hpiece ih =>
    rw [List.cons_append, follow]
    simp only [he, if_pos hpiece, ih]
  | case4 links here rest entries he hpiece ih =>
    rw [List.cons_append, follow]
    simp only [he, if_neg hpiece, if_true, ih]
  | case5 links here piece rest entries he hpiece hup hlookup =>
    rw [List.cons_append, follow]
    simp only [he, if_neg hpiece, if_neg hup, hlookup]
    rfl
  | case6 here piece rest entries he hpiece hup target hlookup =>
    rw [List.cons_append, follow]
    simp only [he, if_neg hpiece, if_neg hup, hlookup]
    rfl
  | case7 here piece rest entries he hpiece hup target hlookup links ih =>
    rw [List.cons_append, follow]
    simp only [he, if_neg hpiece, if_neg hup, hlookup]
    rw [← List.append_assoc, ih]
  | case8 links here piece rest entries he hpiece hup s hlink hlookup ih =>
    rw [List.cons_append, follow]
    simp only [he, if_neg hpiece, if_neg hup, hlookup, ih]

theorem links_le {ps : List ByteString} {r : Reached} (h : follow t links here ps = .ok r) : r.links ≤ links := by
  fun_induction follow t links here ps with
  | case1 =>
    cases h
    exact Nat.le_refl _
  | case2 | case5 | case6 => cases h
  | case3 _ _ _ _ _ _ _ ih => exact ih h
  | case4 _ _ _ _ _ _ ih => exact ih h
  | case7 _ _ _ _ _ _ _ _ _ _ ih => exact Nat.le_succ_of_le (ih h)
  | case8 _ _ _ _ _ _ _ _ _ _ _ ih => exact ih h

/-- More links to go through change nothing but what is left of them. -/
theorem follow_add {ps : List ByteString} {r : Reached} (h : follow t links here ps = .ok r) (more : Nat) :
    follow t (links + more) here ps = .ok ⟨r.place, r.links + more⟩ := by
  fun_induction follow t links here ps with
  | case1 =>
    cases h
    rw [follow]
  | case2 | case5 | case6 => cases h
  | case3 links here piece rest entries he hpiece ih =>
    rw [follow]
    simp only [he, if_pos hpiece, ih h]
  | case4 links here rest entries he hpiece ih =>
    rw [follow]
    simp only [he, if_neg hpiece, if_true, ih h]
  | case7 here piece rest entries he hpiece hup target hlookup links ih =>
    rw [Nat.succ_add, follow]
    simp only [he, if_neg hpiece, if_neg hup, hlookup, ih h]
  | case8 links here piece rest entries he hpiece hup s hlink hlookup ih =>
    rw [follow]
    simp only [he, if_neg hpiece, if_neg hup, hlookup, ih h]

/-- A name leads through a link, or down to an entry. -/
theorem follow_name {name : ByteString} {entries : List (ByteString × Tree)} {r : Reached} (hname : name.IsName)
    (he : t.entriesAt? here = some entries) (h : follow t links here [name] = .ok r) :
    r.links < links ∨ ∃ s, entries.lookup name = some s ∧ r = ⟨here ++ [name], links⟩ := by
  have hpiece : ¬ (name = "" ∨ name = ".") := not_or.mpr ⟨hname.ne_empty, hname.ne_dot⟩
  rw [follow] at h
  simp only [he, if_neg hpiece, if_neg hname.ne_dots] at h
  split at h
  · cases h
  · cases links with
    | zero => cases h
    | succ links => exact Or.inl (Nat.lt_succ_of_le (links_le h))
  · rename_i s hs hlookup
    rw [follow] at h
    cases h
    exact Or.inr ⟨s, hlookup, rfl⟩

/-- Every piece of a path that leads somewhere is a dot, two dots or a name, and has no zero in it. -/
theorem zero_not_mem_of_follow (ht : t.isProper = true) {ps : List ByteString} {r : Reached}
    (h : follow t links here ps = .ok r) : ∀ piece ∈ ps, 0 ∉ piece.bytes := by
  have hname {place : List ByteString} {entries : List (ByteString × Tree)} {piece : ByteString} {s : Tree}
      (he : t.entriesAt? place = some entries) (hs : entries.lookup piece = some s) : 0 ∉ piece.bytes := by
    have hproper := Tree.isProper_at? ht (Tree.entriesAt?_eq_some.mp he)
    exact ((Tree.isProper_dir.mp hproper).2 _ (mem_of_lookup hs)).1.no_nul
  fun_induction follow t links here ps with
  | case1 => exact List.forall_mem_nil _
  | case2 | case5 | case6 => cases h
  | case3 links here piece rest entries he hpiece ih =>
    refine List.forall_mem_cons.mpr ⟨?_, ih h⟩
    rcases hpiece with rfl | rfl <;> decide
  | case4 links here rest entries he hpiece ih => exact List.forall_mem_cons.mpr ⟨by decide, ih h⟩
  | case7 here piece rest entries he hpiece hup target hlookup links ih =>
    exact List.forall_mem_cons.mpr ⟨hname he hlookup, (List.forall_mem_append.mp (ih h)).2⟩
  | case8 links here piece rest entries he hpiece hup s hlink hlookup ih =>
    exact List.forall_mem_cons.mpr ⟨hname he hlookup, ih h⟩

end

section

variable {fs : Files} {dir name : ByteString} {r : Reached}

theorem locate_eq_follow (hne : dir ≠ "") (hzero : 0 ∉ dir.bytes) :
    fs.locate dir = follow fs.root maxLinks (startOf fs.cwd dir) dir.pieces := by
  rw [locate, if_neg hne, if_neg hzero]

theorem follow_of_locate (h : fs.locate dir = .ok r) :
    dir ≠ "" ∧ 0 ∉ dir.bytes ∧ follow fs.root maxLinks (startOf fs.cwd dir) dir.pieces = .ok r := by
  unfold locate at h
  split at h
  · cases h
  · split at h
    · cases h
    · exact ⟨‹_›, ‹_›, h⟩

/-- A name leads on from the place of the directory whose path it is joined to. -/
theorem locate_join (hname : name.IsName) (hdir : fs.locate dir = .ok r) (hplace : fs.root.kindAt? r.place = some .dir) :
    fs.locate (dir.join name) = follow fs.root r.links r.place [name] := by
  obtain ⟨hne, hzero, hdir⟩ := follow_of_locate hdir
  have hstart : startOf fs.cwd (dir.join name) = startOf fs.cwd dir := by
    rw [startOf, ByteString.isAbsolute_join hne hname, startOf]
  obtain ⟨front, hpieces, hjoin⟩ := ByteString.pieces_join hne hname
  rw [locate_eq_follow (ByteString.join_ne_empty hne hname) (ByteString.zero_not_mem_join hzero hname.no_nul), hstart, hjoin,
    follow_append]
  rcases hpieces with hpieces | hpieces
  · rw [hpieces] at hdir
    rw [hdir]
    rfl
  · -- the path ends in a slash, behind which stands an empty piece
    rw [hpieces, follow_append] at hdir
    cases hfront : follow fs.root maxLinks (startOf fs.cwd dir) front with
    | error e =>
      rw [hfront] at hdir
      cases hdir
    | ok r' =>
      rw [hfront] at hdir
      have hdir : follow fs.root r'.links r'.place [("" : ByteString)] = .ok r := hdir
      by_cases hkind : fs.root.kindAt? r'.place = some .dir
      · rw [follow_dot hkind (Or.inl rfl), follow] at hdir
        cases hdir
        rfl
      · rw [follow_blocked hkind (by simp)] at hdir
        cases hdir

theorem find_eq_ok {t : Tree} : fs.find dir = .ok t ↔ ∃ r, fs.locate dir = .ok r ∧ fs.root.at? r.place = some t := by
  unfold find
  cases hlocate : fs.locate dir with
  | error e => simp [bind, Except.bind]
  | ok r =>
    cases hat : fs.root.at? r.place <;>
      simp [bind, Except.bind, pure, Except.pure, throw, throwThe, MonadExceptOf.throw, hat]

theorem isProper_of_find {t : Tree} (h : fs.find dir = .ok t) : t.isProper = true := by
  obtain ⟨r, -, hat⟩ := find_eq_ok.mp h
  exact Tree.isProper_at? fs.proper hat

theorem isDir_iff : fs.isDir dir = true ↔ ∃ r, fs.locate dir = .ok r ∧ (fs.root.entriesAt? r.place).isSome := by
  unfold isDir
  constructor
  · split
    · rename_i entries hfind
      obtain ⟨r, hr, hat⟩ := find_eq_ok.mp hfind
      exact fun _ => ⟨r, hr, by rw [Tree.entriesAt?_eq_some.mpr hat]; rfl⟩
    · exact nofun
  · rintro ⟨r, hr, hdir⟩
    obtain ⟨entries, he⟩ := Option.isSome_iff_exists.mp hdir
    rw [find_eq_ok.mpr ⟨r, hr, Tree.entriesAt?_eq_some.mp he⟩]

theorem isName_of_at? {s : Tree} {place : List ByteString} (h : fs.root.at? (place ++ [name]) = some s) : name.IsName := by
  obtain ⟨entries, he, hlookup⟩ := Tree.exists_entriesAt? h
  have hproper := Tree.isProper_dir.mp (Tree.isProper_at? fs.proper (Tree.entriesAt?_eq_some.mp he))
  exact (hproper.2 _ (mem_of_lookup hlookup)).1

/-- An entry that is no link is reached by joining its name to its directory's path. -/
theorem locate_entry {s : Tree} (hdir : fs.locate dir = .ok r) (hentry : fs.root.at? (r.place ++ [name]) = some s)
    (hs : ∀ target, s ≠ .link target) : fs.locate (dir.join name) = .ok ⟨r.place ++ [name], r.links⟩ := by
  obtain ⟨entries, he, -⟩ := Tree.exists_entriesAt? hentry
  have hname := isName_of_at? hentry
  have hkind : fs.root.kindAt? (r.place ++ [name]) = some s.kind := by
    rw [Tree.kindAt?, hentry]
    rfl
  rw [locate_join hname hdir (Tree.kindAt?_eq_dir.mpr (by rw [he]; rfl)),
    follow_entry ⟨hname.ne_empty, hname.ne_dot, hname.ne_dots⟩ hkind, follow]
  intro target hlink
  cases s with
  | link target' => exact hs target' rfl
  | _ => cases hlink

theorem find_join {entries : List (ByteString × Tree)} {s : Tree} (hdir : fs.find dir = .ok (.dir entries))
    (hentry : (name, s) ∈ entries) (hs : ∀ target, s ≠ .link target) : fs.find (dir.join name) = .ok s := by
  obtain ⟨r, hr, hat⟩ := find_eq_ok.mp hdir
  have hplace : fs.root.at? (r.place ++ [name]) = some s := by
    rw [Tree.at?_of_entriesAt? (Tree.entriesAt?_eq_some.mpr hat), Tree.lookup_of_isProper (isProper_of_find hdir) hentry]
  exact find_eq_ok.mpr ⟨_, locate_entry hr hplace hs, hplace⟩

/-- The path of a directory below a root leads to it, however the root is found. -/
theorem locate_foldl {names : List ByteString} (hdir : fs.locate dir = .ok r)
    (h : (fs.root.entriesAt? (r.place ++ names)).isSome) :
    fs.locate (names.foldl ByteString.join dir) = .ok ⟨r.place ++ names, r.links⟩ := by
  induction names generalizing dir r with
  | nil => rw [List.append_nil]; exact hdir
  | cons n names ih =>
    rw [List.append_cons] at h
    obtain ⟨es, hes⟩ := Option.isSome_iff_exists.mp (Tree.entriesAt?_of_append h)
    rw [List.foldl_cons, ih (locate_entry hdir (Tree.entriesAt?_eq_some.mp hes) (by simp)) h, List.append_cons r.place n names]

end

end PackageIndex.Files
