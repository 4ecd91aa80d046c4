/-
  PackageIndex.Proofs.Lookup — looking up a key in a list of entries.

  The first entry of a key counts. `lookup_of_mem` is for lists in which it is the only one.
-/

namespace PackageIndex

variable {κ α : Type} [DecidableEq κ] {l : List (κ × α)} {k : κ} {v : α}

theorem lookup_cons_ite (k k' : κ) (v : α) (l : List (κ × α)) :
    ((k, v) :: l).lookup k' = if k' = k then some v else l.lookup k' := by
  rw [List.lookup_cons]
  by_cases h : k' = k
  · simp [h]
  · simp [h, beq_eq_false_iff_ne.mpr h]

theorem lookup_map_snd {β : Type} (f : α → β) (l : List (κ × α)) (k : κ) :
    (l.map fun e => (e.1, f e.2)).lookup k = (l.lookup k).map f := by
  induction l with
  | nil => rfl
  | cons e l ih =>
    obtain ⟨k', v⟩ := e
    rw [List.map_cons, lookup_cons_ite, lookup_cons_ite, ih]
    by_cases h : k = k' <;> simp [h]

theorem mem_of_lookup (h : l.lookup k = some v) : (k, v) ∈ l := by
  obtain ⟨before, after, rfl, -⟩ := List.lookup_eq_some_iff.mp h
  exact List.mem_append_right _ List.mem_cons_self

theorem lookup_of_mem (hl : (l.map (·.1)).Nodup) (h : (k, v) ∈ l) : l.lookup k = some v := by
  induction l with
  | nil => cases h
  | cons e l ih =>
    obtain ⟨he, hl⟩ := List.nodup_cons.mp hl
    rcases List.mem_cons.mp h with rfl | h
    · exact List.lookup_cons_self
    · have hne : k ≠ e.1 := by
        rintro rfl
        exact he (List.mem_map_of_mem (f := (·.1)) h)
      rw [List.lookup_cons, beq_false_of_ne hne]
      exact ih hl h

theorem lookup_isSome_iff : (l.lookup k).isSome ↔ k ∈ l.map (·.1) := by
  constructor
  · intro h
    obtain ⟨v, hv⟩ := Option.isSome_iff_exists.mp h
    exact List.mem_map_of_mem (f := (·.1)) (mem_of_lookup hv)
  · intro h
    induction l with
    | nil => cases h
    | cons e l ih =>
      obtain ⟨key, v⟩ := e
      rw [lookup_cons_ite]
      by_cases hk : k = key
      · simp [hk]
      · rw [if_neg hk]
        rcases List.mem_cons.mp h with h | h
        · exact absurd h hk
        · exact ih h

end PackageIndex
