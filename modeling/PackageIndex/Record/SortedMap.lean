/-
  PackageIndex.Record.SortedMap — tables whose keys stand in order.

  A table is a list of entries with strictly increasing keys, strings being ordered by
  code point, which is the order of their bytes. Two tables with the same entries are
  equal.
-/

namespace PackageIndex

structure SortedMap (α : Type) where
  entries : List (String × α)
  sorted : entries.Pairwise fun a b => a.1 < b.1
  deriving DecidableEq

namespace SortedMap

variable {α β : Type}

instance : EmptyCollection (SortedMap α) := ⟨⟨[], .nil⟩⟩

instance : Inhabited (SortedMap α) := ⟨∅⟩

def keys (m : SortedMap α) : List String := m.entries.map (·.1)

def isEmpty (m : SortedMap α) : Bool := m.entries.isEmpty

def get? (m : SortedMap α) (k : String) : Option α := m.entries.lookup k

def contains (m : SortedMap α) (k : String) : Bool := (m.get? k).isSome

/-! ## Changing one entry -/

def alterEntries (k : String) (f : Option α → α) : List (String × α) → List (String × α)
  | [] => [(k, f none)]
  | (k', v) :: rest =>
    if k < k' then (k, f none) :: (k', v) :: rest
    else if k = k' then (k', f (some v)) :: rest
    else (k', v) :: alterEntries k f rest

theorem mem_alterEntries {k : String} {f : Option α → α} {l : List (String × α)} {e : String × α}
    (h : e ∈ alterEntries k f l) : e.1 = k ∨ e ∈ l := by
  induction l with
  | nil => simp_all [alterEntries]
  | cons p l ih =>
    obtain ⟨k', v⟩ := p
    unfold alterEntries at h
    split at h
    · rcases List.mem_cons.mp h with rfl | h
      · exact Or.inl rfl
      · exact Or.inr h
    · split at h
      · rename_i hk
        rcases List.mem_cons.mp h with rfl | h
        · exact Or.inl hk.symm
        · exact Or.inr (List.mem_cons_of_mem _ h)
      · rcases List.mem_cons.mp h with rfl | h
        · exact Or.inr List.mem_cons_self
        · rcases ih h with h | h
          · exact Or.inl h
          · exact Or.inr (List.mem_cons_of_mem _ h)

theorem sorted_alterEntries {k : String} {f : Option α → α} {l : List (String × α)}
    (h : l.Pairwise fun a b => a.1 < b.1) :
    (alterEntries k f l).Pairwise fun a b => a.1 < b.1 := by
  induction l with
  | nil => simp [alterEntries]
  | cons p l ih =>
    obtain ⟨k', v⟩ := p
    obtain ⟨h1, h2⟩ := List.pairwise_cons.mp h
    unfold alterEntries
    split
    · rename_i hlt
      refine List.pairwise_cons.mpr ⟨fun e he => ?_, h⟩
      rcases List.mem_cons.mp he with rfl | he
      · exact hlt
      · exact String.lt_trans hlt (h1 e he)
    · rename_i hge
      split
      · exact List.pairwise_cons.mpr ⟨h1, h2⟩
      · rename_i hne
        refine List.pairwise_cons.mpr ⟨fun e he => ?_, ih h2⟩
        rcases mem_alterEntries he with hk | he
        · have : k' < k := Std.lt_of_le_of_ne (Std.not_lt.mp hge) (Ne.symm hne)
          exact hk ▸ this
        · exact h1 e he

def alter (m : SortedMap α) (k : String) (f : Option α → α) : SortedMap α :=
  ⟨alterEntries k f m.entries, sorted_alterEntries m.sorted⟩

def insert (m : SortedMap α) (k : String) (v : α) : SortedMap α := m.alter k fun _ => v

/-- Each key with the last value listed for it. -/
def ofList (l : List (String × α)) : SortedMap α := l.foldl (fun m e => m.insert e.1 e.2) ∅

/-! ## Tables of lists -/

def push (m : SortedMap (List α)) (k : String) (v : α) : SortedMap (List α) :=
  m.alter k fun vs => vs.getD [] ++ [v]

end SortedMap

end PackageIndex
