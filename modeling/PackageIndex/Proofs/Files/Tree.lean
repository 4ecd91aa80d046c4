/-
  PackageIndex.Proofs.Files.Tree — what is at the places of a tree after something is put there.

  - `isProper_at?`: what is at a place of a proper tree is proper.
  - `kindAt?_put`: a file put into a directory, in place of no other directory, changes its own
    place only.
-/

import PackageIndex.Files.Tree

namespace PackageIndex.Tree

variable {t : Tree} {name : ByteString} {names : List ByteString}

theorem at?_cons (name : ByteString) (names : List ByteString) (t : Tree) :
    t.at? (name :: names) = (t.entries?.bind (·.lookup name)).bind (·.at? names) := by
  rw [at?]
  cases t.entries? with
  | none => rfl
  | some entries => cases entries.lookup name <;> rfl

theorem isProper_at? {s : Tree} (h : t.isProper = true) (hs : t.at? names = some s) : s.isProper = true := by
  induction names generalizing t with
  | nil =>
    cases hs
    exact h
  | cons n names ih =>
    rw [at?_cons, Option.bind_eq_some_iff] at hs
    obtain ⟨u, hu, hs⟩ := hs
    obtain ⟨entries, he, hlookup⟩ := Option.bind_eq_some_iff.mp hu
    cases t with
    | dir =>
      cases he
      exact ih ((isProper_dir.mp h).2 _ (mem_of_lookup hlookup)).2 hs
    | _ => cases he

/-! ## Places -/

theorem entriesAt?_eq_some {entries : List (ByteString × Tree)} :
    t.entriesAt? names = some entries ↔ t.at? names = some (.dir entries) := by
  unfold entriesAt?
  constructor
  · intro h
    obtain ⟨s, hs, he⟩ := Option.bind_eq_some_iff.mp h
    cases s with
    | dir es =>
      cases he
      exact hs
    | _ => cases he
  · intro h
    rw [h]
    rfl

theorem at?_append (names more : List ByteString) (t : Tree) : t.at? (names ++ more) = (t.at? names).bind (·.at? more) := by
  induction names generalizing t with
  | nil => rfl
  | cons n names ih =>
    rw [List.cons_append, at?_cons, at?_cons]
    simp only [ih, Option.bind_assoc]

theorem at?_of_entriesAt? {entries : List (ByteString × Tree)} (h : t.entriesAt? names = some entries) (name : ByteString) :
    t.at? (names ++ [name]) = entries.lookup name := by
  rw [at?_append, entriesAt?_eq_some.mp h]
  show ((some entries).bind fun es => (es.lookup name).bind fun s => some s) = _
  simp

theorem exists_entriesAt? {s : Tree} (h : t.at? (names ++ [name]) = some s) :
    ∃ entries, t.entriesAt? names = some entries ∧ entries.lookup name = some s := by
  rw [at?_append] at h
  obtain ⟨u, hu, hs⟩ := Option.bind_eq_some_iff.mp h
  rw [at?_cons] at hs
  obtain ⟨s', hs', hs⟩ := Option.bind_eq_some_iff.mp hs
  cases hs
  obtain ⟨entries, he, hlookup⟩ := Option.bind_eq_some_iff.mp hs'
  exact ⟨entries, by rw [entriesAt?, hu]; exact he, hlookup⟩

/-- What names below a place lead to is in a directory there. -/
theorem entriesAt?_of_append {more : List ByteString} (h : (t.entriesAt? (names ++ more)).isSome) :
    (t.entriesAt? names).isSome := by
  obtain ⟨entries, he⟩ := Option.isSome_iff_exists.mp h
  rw [entriesAt?_eq_some, at?_append] at he
  obtain ⟨s, hs, he⟩ := Option.bind_eq_some_iff.mp he
  rw [entriesAt?, hs]
  cases s with
  | dir es => rfl
  | _ => cases more <;> cases he

/-- The names that lead to a directory are names. -/
theorem isName_of_entriesAt? {entries : List (ByteString × Tree)} (h : t.isProper = true)
    (he : t.entriesAt? names = some entries) : ∀ n ∈ names, n.IsName := by
  induction names generalizing t with
  | nil => exact List.forall_mem_nil _
  | cons n names ih =>
    rw [entriesAt?_eq_some, at?_cons] at he
    obtain ⟨u, hu, hbelow⟩ := Option.bind_eq_some_iff.mp he
    obtain ⟨es, hes, hlookup⟩ := Option.bind_eq_some_iff.mp hu
    cases t with
    | dir =>
      cases hes
      obtain ⟨hname, hproper⟩ := (isProper_dir.mp h).2 _ (mem_of_lookup hlookup)
      exact List.forall_mem_cons.mpr ⟨hname, ih hproper (entriesAt?_eq_some.mpr hbelow)⟩
    | _ => cases hes

/-- An entry is what stands under its name. -/
theorem lookup_of_isProper {entries : List (ByteString × Tree)} {s : Tree} (h : (Tree.dir entries).isProper = true)
    (he : (name, s) ∈ entries) : entries.lookup name = some s := lookup_of_mem (isProper_dir.mp h).1 he

/-! ## Putting -/

theorem lookup_putEntry (name k : ByteString) (t : Tree) (entries : List (ByteString × Tree)) :
    (putEntry name t entries).lookup k = if k = name then some t else entries.lookup k := by
  have hmap (l : List (ByteString × Tree)) :
      (l.map fun e => if e.1 = name then (name, t) else e).lookup k =
        if k = name then (l.lookup k).map fun _ => t else l.lookup k := by
    induction l with
    | nil => simp
    | cons e l ih =>
      obtain ⟨key, s⟩ := e
      have htail := lookup_cons_ite key k s l
      rw [htail, List.map_cons]
      by_cases hkey : key = name
      · rw [if_pos hkey, lookup_cons_ite, ih, hkey]
        by_cases hk : k = name <;> simp [hk]
      · rw [if_neg hkey, lookup_cons_ite, ih]
        by_cases hk : k = key
        · simp [hk, hkey]
        · simp [hk]
  unfold putEntry
  by_cases hk : k = name
  · subst hk
    split
    · rename_i h
      obtain ⟨s, hs⟩ := Option.isSome_iff_exists.mp h
      simp [hmap, hs]
    · simp
  · split
    · simp [hmap, hk]
    · rw [lookup_cons_ite, if_neg hk]

theorem at?_put (new : Tree) (names : List ByteString) (t : Tree) : (put new names t).at? names = some new := by
  induction names generalizing t with
  | nil => rfl
  | cons n names ih =>
    rw [put, at?_cons]
    show ((putEntry n _ _).lookup n).bind _ = _
    rw [lookup_putEntry, if_pos rfl]
    exact ih _

/-- What of a place can be seen from the way that leads through it. -/
inductive Kind where
  | file
  | link (target : ByteString)
  | dir
  deriving DecidableEq

def kind : Tree → Kind
  | .file _ => .file
  | .link target => .link target
  | .dir _ => .dir

def kindAt? (t : Tree) (names : List ByteString) : Option Kind := (t.at? names).map kind

theorem kindAt?_eq_dir : t.kindAt? names = some .dir ↔ (t.entriesAt? names).isSome := by
  unfold kindAt? entriesAt?
  cases t.at? names with
  | none => simp
  | some s => cases s <;> simp [kind, entries?]

theorem kindAt?_cons_of_not_dir (h : t.kind ≠ .dir) (name : ByteString) (names : List ByteString) :
    t.kindAt? (name :: names) = none := by
  unfold kindAt?
  rw [at?_cons]
  cases t with
  | dir entries => exact absurd rfl h
  | _ => rfl

theorem kindAt?_dir_cons (entries : List (ByteString × Tree)) (name : ByteString) (names : List ByteString) :
    (Tree.dir entries).kindAt? (name :: names) = (entries.lookup name).bind (·.kindAt? names) := by
  unfold kindAt?
  rw [at?_cons, Option.map_bind]
  rfl

/-- A file put into a directory in place of no other directory changes its own place only. -/
theorem kindAt?_put {up : List ByteString} {content : List UInt8} (hup : (t.entriesAt? up).isSome)
    (hfree : t.kindAt? (up ++ [name]) ≠ some .dir) {place : List ByteString} (hne : place ≠ up ++ [name]) :
    (put (.file content) (up ++ [name]) t).kindAt? place = t.kindAt? place := by
  induction up generalizing t place with
  | nil =>
    obtain ⟨entries, he⟩ := Option.isSome_iff_exists.mp hup
    cases entriesAt?_eq_some.mp he
    cases place with
    | nil => rfl
    | cons k place =>
      show (Tree.dir (putEntry name (.file content) entries)).kindAt? (k :: place) = _
      rw [kindAt?_dir_cons, kindAt?_dir_cons, lookup_putEntry]
      by_cases hk : k = name
      · subst hk
        -- below the file there is nothing, and nothing was below what it replaces
        cases place with
        | nil => exact absurd rfl hne
        | cons k' place =>
          rw [if_pos rfl]
          show (Tree.file content).kindAt? (k' :: place) = _
          rw [kindAt?_cons_of_not_dir (by simp [kind])]
          cases hlookup : entries.lookup k with
          | none => rfl
          | some s =>
            have hs : s.kind ≠ .dir := by
              intro hdir
              apply hfree
              rw [List.nil_append, kindAt?_dir_cons, hlookup]
              simp [kindAt?, at?, hdir]
            exact (kindAt?_cons_of_not_dir hs k' place).symm
      · rw [if_neg hk]
  | cons n up ih =>
    obtain ⟨entries, he⟩ := Option.isSome_iff_exists.mp hup
    have hat := entriesAt?_eq_some.mp he
    rw [at?_cons] at hat
    obtain ⟨s, hs, hbelow⟩ := Option.bind_eq_some_iff.mp hat
    obtain ⟨es, hes, hlookup⟩ := Option.bind_eq_some_iff.mp hs
    cases t with
    | dir _ =>
      cases hes
      cases place with
      | nil => rfl
      | cons k place =>
        show (Tree.dir (putEntry n (put (.file content) (up ++ [name]) ((es.lookup n).getD (.dir []))) es)).kindAt? _ = _
        rw [kindAt?_dir_cons, kindAt?_dir_cons, lookup_putEntry]
        by_cases hk : k = n
        · subst hk
          rw [if_pos rfl, hlookup]
          have hthere : (s.entriesAt? up).isSome := by rw [entriesAt?_eq_some.mpr hbelow]; rfl
          refine ih (t := s) hthere ?_ ?_
          · intro hdir
            apply hfree
            rw [List.cons_append, kindAt?_dir_cons, hlookup]
            exact hdir
          · rintro rfl
            exact hne rfl
        · rw [if_neg hk]
    | _ => cases hes

end PackageIndex.Tree
