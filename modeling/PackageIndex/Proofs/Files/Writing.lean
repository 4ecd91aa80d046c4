/-
  PackageIndex.Proofs.Files.Writing — a file that was written is read back.

  - `Keeps`: a change that leaves the working directory where it is, whether it fails or not.
  - `write_eq_ok`: what a change did that wrote a file.
  - `follow_replaced`: the way to a directory is the same after a file came into it, unless it
    led through a link that the file replaced.
  - `read_written`: so the file is read back, if its directory is still there.
-/

import PackageIndex.Proofs.Fallible
import PackageIndex.Proofs.Files.Following
import PackageIndex.Proofs.Files.Spelling

namespace PackageIndex.Files

open Fallible

/-! ## Changes -/

def Keeps {α : Type} (m : Change α) : Prop := ∀ fs, (m.run.run fs).2.cwd = fs.cwd

section

variable {α β : Type} {m : Change α}

theorem keeps_of_eq {f : Files → Except IoFault α} (h : ∀ fs, m.run.run fs = (f fs, fs)) : Keeps m := by
  intro fs
  rw [h]

theorem keeps_pure (a : α) : Keeps (pure a) := keeps_of_eq (f := fun _ => .ok a) fun _ => rfl

theorem keeps_throw (fault : IoFault) : Keeps (throw fault : Change α) :=
  keeps_of_eq (f := fun _ => .error fault) fun _ => rfl

theorem keeps_get : Keeps (get : Change Files) := keeps_of_eq (f := .ok) fun _ => rfl

theorem keeps_liftM (r : Except IoFault α) : Keeps (liftM r : Change α) := keeps_of_eq (run_liftM r)

theorem Keeps.bind {f : α → Change β} (hm : Keeps m) (hf : ∀ a, Keeps (f a)) : Keeps (m >>= f) := by
  intro fs
  rw [run_bind]
  have hcwd := hm fs
  rcases hr : m.run.run fs with ⟨r, fs'⟩
  rw [hr] at hcwd
  cases r with
  | error e => exact hcwd
  | ok a => exact (hf a fs').trans hcwd

theorem Keeps.tryCatch {handle : IoFault → Change α} (hm : Keeps m) (hh : ∀ e, Keeps (handle e)) :
    Keeps (MonadExcept.tryCatch m handle) := by
  intro fs
  rw [run_tryCatch]
  have hcwd := hm fs
  rcases hr : m.run.run fs with ⟨r, fs'⟩
  rw [hr] at hcwd
  cases r with
  | error e => exact (hh e fs').trans hcwd
  | ok a => exact hcwd

theorem Keeps.ite {c : Prop} [Decidable c] {m' : Change α} (h : Keeps m) (h' : Keeps m') : Keeps (if c then m else m') := by
  split
  · exact h
  · exact h'

end

theorem eq_put_of_put? {fs fs' : Files} {new : Tree} {names : List ByteString} (h : fs.put? new names = some fs') :
    fs'.root = .put new names fs.root ∧ fs'.cwd = fs.cwd := by
  unfold put? at h
  split at h
  · cases h
    exact ⟨rfl, rfl⟩
  · cases h

theorem run_place (new : Tree) (names : List ByteString) (fs : Files) :
    (place new names).run.run fs = match fs.put? new names with
      | some fs' => (.ok (), fs')
      | none => (.error .zeroInPath, fs) := by
  show (match fs.put? new names with | some fs' => set fs' | none => throw .zeroInPath : Change Unit).run.run fs = _
  cases fs.put? new names <;> rfl

theorem keeps_place (new : Tree) (names : List ByteString) : Keeps (place new names) := by
  intro fs
  rw [run_place]
  split
  · rename_i fs' hput
    exact (eq_put_of_put? hput).2
  · rfl

theorem keeps_makeDir (here up : List ByteString) (name : ByteString) : Keeps (makeDir here up name) := by
  unfold makeDir
  refine .ite ((keeps_throw _).bind fun _ => ?_) ?_ <;>
    exact keeps_get.bind fun _ => (keeps_liftM _).bind fun _ =>
      .ite ((keeps_throw _).bind fun _ => keeps_place _ _) (keeps_place _ _)

theorem keeps_ensureDir (here up : List ByteString) (name : ByteString) : Keeps (ensureDir here up name) :=
  (keeps_makeDir here up name).tryCatch fun _ =>
    keeps_get.bind fun _ => .ite (keeps_pure _) (keeps_throw _)

theorem keeps_makeDirs (here pieces : List ByteString) : Keeps (makeDirs here pieces) := by
  induction pieces with
  | nil => exact keeps_pure _
  | cons name up ih =>
    refine (keeps_ensureDir here up.reverse name).tryCatch fun _ => ?_
    have hmore : Keeps (makeDirs here up >>= fun _ => ensureDir here up.reverse name) :=
      ih.bind fun _ => keeps_ensureDir here up.reverse name
    exact .ite ((keeps_throw _).bind fun _ => hmore) hmore

/-! ## What was written -/

section

variable {path : String} {content : List UInt8} {fs fs' : Files}

/-- The last piece of a path, and what stands before it, which tells the directory. -/
theorem pieces_directory (path : String) : ∃ up, ∃ name : ByteString, (path : ByteString).pieces = up ++ [name] ∧
    (name = "" → path = "" ∨ path.toList.getLast? = some '/') ∧
    (up = [] ∧ Path.directory path = "." ∨ (Path.directory path : ByteString).pieces = up ++ [("" : ByteString)]) := by
  obtain ⟨up, last, hpieces, hlast, hdir⟩ := Path.pieces_directory path
  refine ⟨up.map fun piece => (String.ofList piece : ByteString), String.ofList last, ?_, ?_, ?_⟩
  · rw [ByteString.pieces_ofString, hpieces, List.map_append]
    rfl
  · intro h
    exact hlast (by simpa using ByteString.ofString_inj.mp h)
  · rcases hdir with ⟨rfl, hdir⟩ | hdir
    · exact Or.inl ⟨rfl, hdir⟩
    · refine Or.inr ?_
      rw [ByteString.pieces_ofString, hdir, List.map_append]
      rfl

theorem directoryAt_eq_ok {t : Tree} {here ps there : List ByteString} {entries : List (ByteString × Tree)}
    (h : directoryAt t here ps = .ok (there, entries)) :
    ∃ r, follow t maxLinks here ps = .ok r ∧ r.place = there ∧ t.entriesAt? r.place = some entries := by
  unfold directoryAt at h
  obtain ⟨r, hr, h⟩ := bind_eq_ok.mp h
  cases he : t.entriesAt? r.place with
  | none =>
    simp only [he] at h
    cases h
  | some es =>
    simp only [he] at h
    cases h
    exact ⟨r, hr, rfl, he⟩

/-- What was done where a file was written: it was put into the directory that all but the last
piece of its path lead to, not in place of a directory. -/
theorem write_eq_ok (h : (write path content).run.run fs = (.ok (), fs')) :
    ∃ up, ∃ name : ByteString, ∃ r, ∃ mid : Files, path ≠ "" ∧ (path : ByteString).pieces = up ++ [name] ∧
      name ≠ "" ∧ name ≠ "." ∧ name ≠ ".." ∧
      mid.cwd = fs.cwd ∧ follow mid.root maxLinks (startOf fs.cwd path) up = .ok r ∧
      (mid.root.entriesAt? r.place).isSome ∧ mid.root.kindAt? (r.place ++ [name]) ≠ some .dir ∧
      fs'.root = .put (.file content) (r.place ++ [name]) mid.root ∧ fs'.cwd = mid.cwd := by
  obtain ⟨up, name, hpieces, hname, -⟩ := pieces_directory path
  unfold write at h
  rw [run_throw_if_eq_ok] at h
  obtain ⟨hpath, h⟩ := h
  have hpath : path ≠ "" := fun he => hpath (by rw [he])
  obtain ⟨_, _, hget, h⟩ := run_bind_eq_ok.mp h
  cases hget
  obtain ⟨_, mid, hdirs, h⟩ := run_bind_eq_ok.mp h
  have hcwd : mid.cwd = fs.cwd := by
    have hkeeps := keeps_makeDirs (startOf fs.cwd path) (steps path).reverse.tail fs
    rwa [hdirs] at hkeeps
  split at h
  · cases h
  · rename_i last before hlast
    obtain ⟨_, _, hget, h⟩ := run_bind_eq_ok.mp h
    cases hget
    obtain ⟨⟨there, entries⟩, hthere, h⟩ := run_liftM_bind_eq_ok.mp h
    rw [run_throw_if_eq_ok] at h
    obtain ⟨hdots, h⟩ := h
    rw [run_throw_if_eq_ok] at h
    obtain ⟨hslash, hput⟩ := h
    have hne : name ≠ "" := fun he => (hname he).elim hpath fun h => hslash ((ByteString.getLast?_encode _).mpr h)
    rw [hpieces, List.reverse_append, List.reverse_singleton, List.singleton_append,
      List.dropWhile_cons_of_neg (by simpa using hne)] at hlast
    cases hlast
    rw [List.reverse_reverse] at hthere
    obtain ⟨r, hfollow, rfl, hentries⟩ := directoryAt_eq_ok hthere
    refine ⟨up, name, r, mid, hpath, hpieces, hne, fun he => hdots (Or.inl he), fun he => hdots (Or.inr he), hcwd,
      hfollow, by rw [hentries]; rfl, ?_, ?_⟩
    · rw [Tree.kindAt?, Tree.at?_of_entriesAt? hentries]
      intro hdir
      obtain ⟨s, hs, hkind⟩ := Option.map_eq_some_iff.mp hdir
      cases s with
      | dir es =>
        simp only [hs] at hput
        cases hput
      | _ => cases hkind
    · split at hput
      · cases hput
      · rw [run_place] at hput
        split at hput
        · rename_i fs'' hfs
          cases hput
          exact eq_put_of_put? hfs
        · cases hput

end

/-! ## The way to what was written -/

section

variable {t t' : Tree} {name : ByteString} {r : Reached}

/-- The way to a directory is the same after a file came into it, unless it led through a link that
the file replaced; so it goes on to the file. -/
theorem follow_replaced (hname : name ≠ "" ∧ name ≠ "." ∧ name ≠ "..")
    (hfree : t.kindAt? (r.place ++ [name]) ≠ some .dir) (hnew : t'.kindAt? (r.place ++ [name]) = some .file)
    (hsame : ∀ place, place ≠ r.place ++ [name] → t'.kindAt? place = t.kindAt? place)
    {links : Nat} {here up : List ByteString} (hold : follow t links here up = .ok r)
    (hdir : ∃ r', follow t' links here (up ++ [("" : ByteString)]) = .ok r') :
    follow t' links here (up ++ [name]) = .ok ⟨r.place ++ [name], r.links⟩ := by
  have hdirs {place : List ByteString} {entries : List (ByteString × Tree)} (he : t.entriesAt? place = some entries) :
      t'.kindAt? place = some .dir := by
    have hkind : t.kindAt? place = some .dir := Tree.kindAt?_eq_dir.mpr (by rw [he]; rfl)
    rw [hsame place fun h => hfree (h ▸ hkind), hkind]
  fun_induction follow t links here up with
  | case1 =>
    cases hold
    rw [List.nil_append, follow_entry hname hnew (by simp), follow]
  | case2 => cases hold
  | case3 links here piece rest entries he hpiece ih =>
    rw [List.cons_append, follow_dot (hdirs he) hpiece] at hdir ⊢
    exact ih hold hdir
  | case4 links here rest entries he hpiece ih =>
    rw [List.cons_append, follow_up (hdirs he)] at hdir ⊢
    exact ih hold hdir
  | case5 => cases hold
  | case6 => cases hold
  | case7 here piece rest entries he hpiece hup target hlookup links ih =>
    have hplain : piece ≠ "" ∧ piece ≠ "." ∧ piece ≠ ".." := and_assoc.mp ⟨not_or.mp hpiece, hup⟩
    by_cases hplace : here ++ [piece] = r.place ++ [name]
    · -- the link is gone, and the file in its place leads nowhere
      rw [← hplace] at hnew
      obtain ⟨r', hdir⟩ := hdir
      rw [List.cons_append, follow_entry hplain hnew (by simp), follow_blocked (by simp [hnew]) (by simp)] at hdir
      cases hdir
    · have hkind : t'.kindAt? (here ++ [piece]) = some (.link target) := by
        rw [hsame _ hplace, Tree.kindAt?, Tree.at?_of_entriesAt? he, hlookup]
        rfl
      rw [List.cons_append, follow_link target hplain hkind, ← List.append_assoc] at hdir ⊢
      exact ih hold hdir
  | case8 links here piece rest entries he hpiece hup s hlink hlookup ih =>
    have hplain : piece ≠ "" ∧ piece ≠ "." ∧ piece ≠ ".." := and_assoc.mp ⟨not_or.mp hpiece, hup⟩
    have hkind : t.kindAt? (here ++ [piece]) = some s.kind := by
      rw [Tree.kindAt?, Tree.at?_of_entriesAt? he, hlookup]
      rfl
    have hkind' : ∃ k, t'.kindAt? (here ++ [piece]) = some k ∧ ∀ target, k ≠ .link target := by
      by_cases hplace : here ++ [piece] = r.place ++ [name]
      · exact ⟨.file, hplace ▸ hnew, by simp⟩
      · refine ⟨s.kind, by rw [hsame _ hplace, hkind], ?_⟩
        intro target htarget
        cases s with
        | link target' => exact hlink target' rfl
        | _ => cases htarget
    obtain ⟨k, hk, hnolink⟩ := hkind'
    rw [List.cons_append, follow_entry hplain hk hnolink] at hdir ⊢
    exact ih hold hdir

end

/-! ## Reading back -/

section

variable {path : String} {content : List UInt8} {fs fs' : Files}

theorem startOf_directory (here : List ByteString) (path : String) :
    startOf here (Path.directory path) = startOf here path := by
  unfold startOf
  rw [ByteString.isAbsolute_ofString, ByteString.isAbsolute_ofString, Path.isAbsolute_directory]

/-- The way to the directory of a file, told by the pieces in front of the file's name. -/
theorem follow_directory {up : List ByteString} {name : ByteString} (hpieces : (path : ByteString).pieces = up ++ [name])
    (hdir : fs.isDir (Path.directory path) = true) :
    ∃ r, follow fs.root maxLinks (startOf fs.cwd path) (up ++ [("" : ByteString)]) = .ok r := by
  obtain ⟨up', name', hpieces', -, hdirectory⟩ := pieces_directory path
  obtain ⟨rfl, -⟩ := List.append_inj' (hpieces.symm.trans hpieces') rfl
  obtain ⟨r, hr, -⟩ := isDir_iff.mp hdir
  obtain ⟨-, -, hr⟩ := follow_of_locate hr
  rw [startOf_directory] at hr
  rcases hdirectory with ⟨rfl, hdot⟩ | hdirectory
  · have hone : ("." : ByteString).pieces = [("." : ByteString)] := by decide
    rw [hdot, hone] at hr
    by_cases hhere : fs.root.kindAt? (startOf fs.cwd path) = some .dir
    · rw [follow_dot hhere (Or.inr rfl)] at hr
      exact ⟨r, by rw [List.nil_append, follow_dot hhere (Or.inl rfl), hr]⟩
    · rw [follow_blocked hhere (by simp)] at hr
      cases hr
  · rw [hdirectory] at hr
    exact ⟨r, hr⟩

/-- A file is read back as it was written, if the directory that its path names is still there. -/
theorem read_written (h : (write path content).run.run fs = (.ok (), fs'))
    (hdir : fs'.isDir (Path.directory path) = true) : fs'.read path = .ok content := by
  obtain ⟨up, name, r, mid, hpath, hpieces, hne, hdot, hdots, hcwd, hfollow, hthere, hfree, hroot, hcwd'⟩ := write_eq_ok h
  have hnew : fs'.root.at? (r.place ++ [name]) = some (.file content) := by rw [hroot, Tree.at?_put]
  have hsame (place : List ByteString) (hplace : place ≠ r.place ++ [name]) :
      fs'.root.kindAt? place = mid.root.kindAt? place := by
    rw [hroot, Tree.kindAt?_put hthere hfree hplace]
  have hway := follow_directory hpieces hdir
  rw [hcwd', hcwd] at hway
  have hplace := follow_replaced ⟨hne, hdot, hdots⟩ hfree (by rw [Tree.kindAt?, hnew]; rfl) hsame hfollow hway
  have hzero : 0 ∉ (path : ByteString).bytes := by
    apply ByteString.zero_not_mem_of_pieces
    rw [hpieces]
    exact zero_not_mem_of_follow fs'.proper hplace
  have hlocate : fs'.locate path = .ok ⟨r.place ++ [name], r.links⟩ := by
    rw [locate_eq_follow (fun h => hpath (ByteString.ofString_inj.mp h)) hzero, hcwd', hcwd, hpieces, hplace]
  rw [read, find_eq_ok.mpr ⟨_, hlocate, hnew⟩]
  rfl

end

end PackageIndex.Files
