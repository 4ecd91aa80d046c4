/-
  PackageIndex.Proofs.Record.SortedMap — what a table holds after its entries were changed.

  - `mem_keys_alter`, `get?_alter`: one change adds its key, and leaves every other value.
  - `keys_ext`: tables with the same keys list them alike, since the keys stand in order.
  - `ext_get?`: so tables that have the same values are equal.
  - `values_collect`: values put under their keys one after another stand there in this order,
    so that in another order the same values stand there (`values_collect_perm`).
-/

import Mathlib.Data.List.Sort
import PackageIndex.Proofs.Lookup
import PackageIndex.Record.SortedMap

namespace PackageIndex.SortedMap

variable {α β : Type} {k k' : String} {f : Option α → α}

/-! ## Keys -/

@[simp] theorem keys_empty : (∅ : SortedMap α).keys = [] := rfl

theorem keys_pairwise (m : SortedMap α) : m.keys.Pairwise (· < ·) := List.pairwise_map.mpr m.sorted

theorem keys_ext {m : SortedMap α} {n : SortedMap β} (h : ∀ k, k ∈ m.keys ↔ k ∈ n.keys) : m.keys = n.keys :=
  m.keys_pairwise.eq_of_mem_iff n.keys_pairwise h

theorem mem_keys_alterEntries {l : List (String × α)} :
    k' ∈ (alterEntries k f l).map (·.1) ↔ k' = k ∨ k' ∈ l.map (·.1) := by
  induction l with
  | nil => simp [alterEntries]
  | cons e l ih =>
    obtain ⟨key, v⟩ := e
    unfold alterEntries
    split
    · simp
    · split
      · rename_i hkey
        simp [hkey]
      · simp only [List.map_cons, List.mem_cons, ih]
        exact or_left_comm

theorem mem_keys_alter {m : SortedMap α} : k' ∈ (m.alter k f).keys ↔ k' = k ∨ k' ∈ m.keys := mem_keys_alterEntries

theorem mem_keys_ofList {l : List (String × α)} : k ∈ (ofList l).keys ↔ k ∈ l.map (·.1) := by
  have h (m : SortedMap α) : k ∈ (l.foldl (fun m e => m.insert e.1 e.2) m).keys ↔ k ∈ m.keys ∨ k ∈ l.map (·.1) := by
    induction l generalizing m with
    | nil => simp
    | cons e l ih =>
      rw [List.foldl_cons, ih, insert, mem_keys_alter, List.map_cons, List.mem_cons, or_comm (a := k = e.1), or_assoc]
  rw [ofList, h]
  simp

/-! ## Entries -/

theorem mem_entries_insert {m : SortedMap α} {v : α} {e : String × α} (h : e ∈ (m.insert k v).entries) :
    e = (k, v) ∨ e ∈ m.entries := by
  change e ∈ alterEntries k (fun _ => v) m.entries at h
  generalize m.entries = l at h ⊢
  induction l with
  | nil => exact Or.inl (List.mem_singleton.mp h)
  | cons e' l ih =>
    obtain ⟨key, v'⟩ := e'
    unfold alterEntries at h
    split at h
    · exact List.mem_cons.mp h
    · split at h
      · rename_i hkey
        rcases List.mem_cons.mp h with rfl | h
        · exact Or.inl (by rw [hkey])
        · exact Or.inr (List.mem_cons_of_mem _ h)
      · rcases List.mem_cons.mp h with rfl | h
        · exact Or.inr List.mem_cons_self
        · exact (ih h).imp_right (List.mem_cons_of_mem _)

/-- Every entry of a table is one of those it was made of. -/
theorem mem_entries_ofList {l : List (String × α)} {e : String × α} (h : e ∈ (ofList l).entries) : e ∈ l := by
  have hfold (m : SortedMap α) (he : e ∈ (l.foldl (fun m e => m.insert e.1 e.2) m).entries) : e ∈ m.entries ∨ e ∈ l := by
    clear h
    induction l generalizing m with
    | nil => exact Or.inl he
    | cons e' l ih =>
      rcases ih (m.insert e'.1 e'.2) he with he | he
      · rcases mem_entries_insert he with rfl | he
        · exact Or.inr List.mem_cons_self
        · exact Or.inl he
      · exact Or.inr (List.mem_cons_of_mem _ he)
  rcases hfold ∅ h with h | h
  · cases h
  · exact h

/-! ## Values -/

theorem lookup_of_all_lt {l : List (String × α)} (h : ∀ e ∈ l, k < e.1) : l.lookup k = none := by
  rw [List.lookup_eq_none_iff]
  intro e he
  simpa using Std.ne_of_lt (h e he)

theorem lookup_alterEntries {l : List (String × α)} (hs : l.Pairwise fun a b => a.1 < b.1) :
    (alterEntries k f l).lookup k' = if k' = k then some (f (l.lookup k)) else l.lookup k' := by
  induction l with
  | nil => exact lookup_cons_ite _ _ _ _
  | cons e l ih =>
    obtain ⟨key, v⟩ := e
    obtain ⟨hlt, hs⟩ := List.pairwise_cons.mp hs
    unfold alterEntries
    split
    · rename_i hk
      have hnone : ((key, v) :: l).lookup k = none := by
        apply lookup_of_all_lt
        intro e he
        rcases List.mem_cons.mp he with rfl | he
        · exact hk
        · exact String.lt_trans hk (hlt e he)
      rw [lookup_cons_ite, hnone]
    · split
      · rename_i hk
        subst hk
        by_cases h : k' = k <;> simp [lookup_cons_ite, h]
      · rename_i hne
        simp only [lookup_cons_ite, ih hs, if_neg hne]
        by_cases h : k' = k
        · subst h
          simp [hne]
        · simp [h]

theorem get?_alter (m : SortedMap α) (k k' : String) (f : Option α → α) :
    (m.alter k f).get? k' = if k' = k then some (f (m.get? k)) else m.get? k' := lookup_alterEntries m.sorted

theorem eq_of_entries {m n : SortedMap α} (h : m.entries = n.entries) : m = n := by
  cases m
  cases n
  cases h
  rfl

theorem nodup_keys (m : SortedMap α) : m.keys.Nodup := m.keys_pairwise.imp Std.ne_of_lt

theorem mem_entries_iff {m : SortedMap α} {e : String × α} : e ∈ m.entries ↔ m.get? e.1 = some e.2 :=
  ⟨fun h => lookup_of_mem m.nodup_keys h, fun h => mem_of_lookup h⟩

theorem mem_keys_iff {m : SortedMap α} : k ∈ m.keys ↔ (m.get? k).isSome := lookup_isSome_iff.symm

/-- The values of all keys make out a table. -/
theorem ext_get? {m n : SortedMap α} (h : ∀ k, m.get? k = n.get? k) : m = n := by
  have hirrefl : Std.Irrefl fun a b : String × α => a.1 < b.1 := ⟨fun _ => Std.lt_irrefl⟩
  have hantisymm : Std.Antisymm fun a b : String × α => a.1 < b.1 :=
    ⟨fun _ _ hab hba => absurd (String.lt_trans hab hba) Std.lt_irrefl⟩
  apply eq_of_entries
  exact m.sorted.eq_of_mem_iff n.sorted fun e => by rw [mem_entries_iff, mem_entries_iff, h]

/-! ## Tables of lists -/

/-- What stands under a key; nothing stands under one that the table does not have. -/
def values (m : SortedMap (List α)) (k : String) : List α := (m.get? k).getD []

theorem ext_values {m n : SortedMap (List α)} (hkeys : ∀ k, k ∈ m.keys ↔ k ∈ n.keys)
    (hvalues : ∀ k, m.values k = n.values k) : m = n := by
  apply ext_get?
  intro k
  have hkey := hkeys k
  have hvalue := hvalues k
  rw [mem_keys_iff, mem_keys_iff] at hkey
  unfold values at hvalue
  cases hm : m.get? k <;> cases hn : n.get? k <;> simp_all

theorem values_push (m : SortedMap (List α)) (k k' : String) (v : α) :
    (m.push k v).values k' = m.values k' ++ if k' = k then [v] else [] := by
  unfold values push
  rw [get?_alter]
  by_cases h : k' = k
  · subst h
    simp
  · simp [h]

def collect (key : β → String) (value : β → α) (l : List β) (m : SortedMap (List α)) : SortedMap (List α) :=
  l.foldl (fun m b => m.push (key b) (value b)) m

variable {key : β → String} {value : β → α}

theorem mem_keys_collect {l : List β} {m : SortedMap (List α)} :
    k ∈ (collect key value l m).keys ↔ k ∈ m.keys ∨ k ∈ l.map key := by
  induction l generalizing m with
  | nil => simp [collect]
  | cons b l ih =>
    show k ∈ (collect key value l (m.push (key b) (value b))).keys ↔ _
    rw [ih, push, mem_keys_alter, List.map_cons, List.mem_cons, or_comm (a := k = key b), or_assoc]

theorem values_collect (l : List β) (m : SortedMap (List α)) (k : String) :
    (collect key value l m).values k = m.values k ++ (l.filter fun b => k = key b).map value := by
  induction l generalizing m with
  | nil => simp [collect]
  | cons b l ih =>
    show (collect key value l (m.push (key b) (value b))).values k = _
    rw [ih, values_push, List.append_assoc]
    by_cases h : k = key b <;> simp [h]

/-- No key stands in the table without a value. -/
theorem mem_keys_collect_iff {l : List β} :
    k ∈ (collect key value l ∅).keys ↔ (collect key value l ∅).values k ≠ [] := by
  have hvalues : (collect key value l ∅).values k = (l.filter fun b => k = key b).map value := values_collect l ∅ k
  rw [mem_keys_collect, keys_empty, or_iff_right List.not_mem_nil, hvalues, List.mem_map, Ne, List.map_eq_nil_iff,
    List.filter_eq_nil_iff]
  constructor
  · rintro ⟨b, hb, rfl⟩ hnone
    exact hnone b hb (decide_eq_true rfl)
  · intro hsome
    simp only [not_forall, not_not, decide_eq_true_eq] at hsome
    obtain ⟨b, hb, rfl⟩ := hsome
    exact ⟨b, hb, rfl⟩

theorem values_collect_append (l l' : List β) (k : String) :
    (collect key value l ∅).values k ++ (collect key value l' ∅).values k =
      (collect key value (l ++ l') ∅).values k := by
  simp only [values_collect, List.filter_append, List.map_append]
  rfl

theorem keys_collect_perm {l l' : List β} (h : l.Perm l') :
    (collect key value l ∅).keys = (collect key value l' ∅).keys := by
  apply keys_ext
  intro k
  rw [mem_keys_collect, mem_keys_collect, (h.map key).mem_iff]

theorem values_collect_perm {l l' : List β} (h : l.Perm l') (k : String) :
    ((collect key value l ∅).values k).Perm ((collect key value l' ∅).values k) := by
  rw [values_collect, values_collect]
  exact ((h.filter _).map value).append_left _

end PackageIndex.SortedMap
