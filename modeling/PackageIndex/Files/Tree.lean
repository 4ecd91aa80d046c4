/-
  PackageIndex.Files.Tree — files, directories and symbolic links.

  A place in a tree is told by the names that lead to it from the root. A directory
  lists its newest entry first; an entry that replaces another takes its place.

  - `isProper_put`: what is put under names that entries can have leaves a tree proper.
-/

import PackageIndex.Files.ByteString
import PackageIndex.Proofs.Lookup

namespace PackageIndex

inductive Tree where
  | file (content : List UInt8)
  | link (target : ByteString)
  | dir (entries : List (ByteString × Tree))
  deriving Inhabited

namespace Tree

def entries? : Tree → Option (List (ByteString × Tree))
  | .dir entries => some entries
  | _ => none

def at? (t : Tree) : List ByteString → Option Tree
  | [] => some t
  | name :: names => do
    let entries ← t.entries?
    at? (← entries.lookup name) names

def entriesAt? (t : Tree) (place : List ByteString) : Option (List (ByteString × Tree)) := t.at? place >>= entries?

/-! ## Proper trees -/

mutual

/-- Entries have names that they can have, and no two of a directory have the same. -/
def isProper : Tree → Bool
  | .dir entries => decide (entries.map (·.1)).Nodup && areProper entries
  | _ => true

def areProper : List (ByteString × Tree) → Bool
  | [] => true
  | (name, t) :: entries => decide name.IsName && t.isProper && areProper entries

end

theorem areProper_iff {entries : List (ByteString × Tree)} :
    areProper entries = true ↔ ∀ e ∈ entries, e.1.IsName ∧ e.2.isProper = true := by
  induction entries with
  | nil => simp [areProper]
  | cons e entries ih =>
    obtain ⟨name, t⟩ := e
    rw [areProper, Bool.and_eq_true, Bool.and_eq_true, decide_eq_true_iff, ih, List.forall_mem_cons]

theorem isProper_dir {entries : List (ByteString × Tree)} : (Tree.dir entries).isProper = true ↔
    (entries.map (·.1)).Nodup ∧ ∀ e ∈ entries, e.1.IsName ∧ e.2.isProper = true := by
  rw [isProper, Bool.and_eq_true, decide_eq_true_iff, areProper_iff]

/-! ## Changing a tree -/

/-- Entries with `t` under a name, in the place of what had the name, or else in front. -/
def putEntry (name : ByteString) (t : Tree) (entries : List (ByteString × Tree)) : List (ByteString × Tree) :=
  if (entries.lookup name).isSome then entries.map fun e => if e.1 = name then (name, t) else e
  else (name, t) :: entries

/-- The tree with `new` at a place; directories are made on the way. -/
def put (new : Tree) : List ByteString → Tree → Tree
  | [], _ => new
  | name :: names, t =>
    let entries := t.entries?.getD []
    .dir (putEntry name (put new names ((entries.lookup name).getD (.dir []))) entries)

section

variable {t new : Tree} {name : ByteString} {names : List ByteString} {entries : List (ByteString × Tree)}

theorem isProper_putEntry (hname : name.IsName) (ht : t.isProper = true) (h : (Tree.dir entries).isProper = true) :
    (Tree.dir (putEntry name t entries)).isProper = true := by
  rw [isProper_dir] at h ⊢
  obtain ⟨hnodup, hall⟩ := h
  unfold putEntry
  split
  · have hkeys : (entries.map fun e => if e.1 = name then (name, t) else e).map (·.1) = entries.map (·.1) := by
      rw [List.map_map]
      refine List.map_congr_left fun e _ => ?_
      show (if e.1 = name then (name, t) else e).1 = e.1
      split
      · rename_i he
        exact he.symm
      · rfl
    rw [hkeys]
    refine ⟨hnodup, List.forall_mem_map.mpr fun e he => ?_⟩
    split
    · exact ⟨hname, ht⟩
    · exact hall e he
  · rename_i hnew
    rw [lookup_isSome_iff] at hnew
    exact ⟨List.nodup_cons.mpr ⟨hnew, hnodup⟩, List.forall_mem_cons.mpr ⟨⟨hname, ht⟩, hall⟩⟩

theorem isProper_put (hnew : new.isProper = true) (hnames : ∀ n ∈ names, n.IsName) (ht : t.isProper = true) :
    (put new names t).isProper = true := by
  induction names generalizing t with
  | nil => exact hnew
  | cons n names ih =>
    obtain ⟨hn, hnames⟩ := List.forall_mem_cons.mp hnames
    have hentries : (Tree.dir (t.entries?.getD [])).isProper = true := by
      cases t with
      | dir entries => exact ht
      | _ => rfl
    refine isProper_putEntry hn (ih hnames ?_) hentries
    cases hlookup : (t.entries?.getD []).lookup n with
    | none => rfl
    | some s => exact ((isProper_dir.mp hentries).2 _ (mem_of_lookup hlookup)).2

end

end Tree

end PackageIndex
