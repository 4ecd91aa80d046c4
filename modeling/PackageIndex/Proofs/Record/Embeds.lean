/-
  PackageIndex.Proofs.Record.Embeds — the embeds of a file, flat and by pattern.

  - `embedsByPattern_flatEmbeds`: grouping the flat list gives the table back, unless the
    table has a pattern that stands nowhere.
  - `filter_regrouped`: flattening what was grouped puts the embeds in the order of their
    patterns, and leaves those of each pattern in theirs.
  - `embedsByPattern_regrouped`: so it is the same for the table whether lists of embeds were
    regrouped before they were put together.
-/

import PackageIndex.Proofs.Record.SortedMap
import PackageIndex.Record.Basic

namespace PackageIndex

namespace SortedMap

variable {α : Type} {k : String} {f : Option α → α}

/-! ## Changing the last entry -/

/-- Entries before the key stay as they are. -/
theorem alterEntries_append {l : List (String × α)} (h : ∀ e ∈ l, e.1 < k) (m : List (String × α)) :
    alterEntries k f (l ++ m) = l ++ alterEntries k f m := by
  induction l with
  | nil => rfl
  | cons e l ih =>
    obtain ⟨key, v⟩ := e
    have hkey : key < k := h (key, v) List.mem_cons_self
    rw [List.cons_append, alterEntries, if_neg (Std.not_lt.mpr (Std.le_of_lt hkey)), if_neg (Ne.symm (Std.ne_of_lt hkey)),
      ih fun a ha => h a (List.mem_cons_of_mem _ ha), List.cons_append]

theorem alterEntries_of_all_lt {l : List (String × α)} (h : ∀ e ∈ l, e.1 < k) :
    alterEntries k f l = l ++ [(k, f none)] := by
  simpa [alterEntries] using alterEntries_append (f := f) h []

theorem alterEntries_concat {l : List (String × α)} (h : ∀ e ∈ l, e.1 < k) (v : α) :
    alterEntries k f (l ++ [(k, v)]) = l ++ [(k, f (some v))] := by
  simpa [alterEntries] using alterEntries_append (f := f) h [(k, v)]

end SortedMap

/-! ## The table -/

theorem mem_keys_embedsByPattern {l : List Embed} {k : String} :
    k ∈ (embedsByPattern l).keys ↔ ∃ e ∈ l, k = e.pattern := by
  rw [show embedsByPattern l = SortedMap.collect (·.pattern) (·.position) l ∅ from rfl, SortedMap.mem_keys_collect]
  simp [eq_comm]

/-- The positions of a pattern are those of its embeds, in their order. -/
theorem values_embedsByPattern (l : List Embed) (k : String) :
    (embedsByPattern l).values k = (l.filter fun e => k = e.pattern).map (·.position) :=
  (SortedMap.values_collect l ∅ k).trans (List.nil_append _)

/-! ## Grouping what was flattened -/

def embedsOf (pattern : String) (positions : List Position) : List Embed := positions.map fun p => ⟨pattern, p⟩

def pushEmbeds (m : SortedMap (List Position)) (l : List Embed) : SortedMap (List Position) :=
  l.foldl (fun m e => m.push e.pattern e.position) m

/-- Positions of the last pattern join those it has. -/
theorem pushEmbeds_last {m : SortedMap (List Position)} {l : List (String × List Position)} {k : String}
    {known : List Position} (hm : m.entries = l ++ [(k, known)]) (hl : ∀ e ∈ l, e.1 < k) (more : List Position) :
    (pushEmbeds m (embedsOf k more)).entries = l ++ [(k, known ++ more)] := by
  induction more generalizing m known with
  | nil => rw [List.append_nil]; exact hm
  | cons p more ih =>
    have h1 : (m.push k p).entries = l ++ [(k, known ++ [p])] := by
      show SortedMap.alterEntries k _ m.entries = _
      rw [hm, SortedMap.alterEntries_concat hl]
      rfl
    have h2 := ih h1
    rw [List.append_assoc] at h2
    exact h2

/-- A pattern behind all others becomes the last entry. -/
theorem pushEmbeds_new {m : SortedMap (List Position)} {k : String} (hm : ∀ e ∈ m.entries, e.1 < k)
    {positions : List Position} (hp : positions ≠ []) :
    (pushEmbeds m (embedsOf k positions)).entries = m.entries ++ [(k, positions)] := by
  cases positions with
  | nil => exact absurd rfl hp
  | cons p more =>
    have h1 : (m.push k p).entries = m.entries ++ [(k, [p])] := SortedMap.alterEntries_of_all_lt hm
    exact pushEmbeds_last h1 hm more

/-- Flat embeds in the order of their patterns add one entry after another. -/
theorem pushEmbeds_flat (es : List (String × List Position)) (hs : es.Pairwise fun a b => a.1 < b.1)
    (hne : ∀ e ∈ es, e.2 ≠ []) (m : SortedMap (List Position)) (hm : ∀ a ∈ m.entries, ∀ e ∈ es, a.1 < e.1) :
    (pushEmbeds m (es.flatMap fun e => embedsOf e.1 e.2)).entries = m.entries ++ es := by
  induction es generalizing m with
  | nil => exact (List.append_nil _).symm
  | cons e es ih =>
    obtain ⟨he, hs⟩ := List.pairwise_cons.mp hs
    have h1 := pushEmbeds_new (fun a ha => hm a ha e List.mem_cons_self) (hne e List.mem_cons_self)
    have h2 := ih hs (fun a ha => hne a (List.mem_cons_of_mem _ ha)) (pushEmbeds m (embedsOf e.1 e.2)) (by
      intro a ha b hb
      rw [h1] at ha
      rcases List.mem_append.mp ha with ha | ha
      · exact hm a ha b (List.mem_cons_of_mem _ hb)
      · rw [List.mem_singleton.mp ha]
        exact he b hb)
    rw [h1, List.append_assoc] at h2
    rw [List.flatMap_cons]
    unfold pushEmbeds at h2 ⊢
    rw [List.foldl_append]
    exact h2

/-- A pattern that stands nowhere leaves no trace in the flat list, hence the hypothesis. -/
theorem embedsByPattern_flatEmbeds (f : FileRecord) (h : ∀ e ∈ f.embeds.entries, e.2 ≠ []) :
    embedsByPattern f.flatEmbeds = f.embeds :=
  SortedMap.eq_of_entries (pushEmbeds_flat f.embeds.entries f.embeds.sorted h ∅ fun _ ha => nomatch ha)

/-! ## Flattening what was grouped -/

/-- The embeds in the order of their patterns. -/
def regrouped (l : List Embed) : List Embed := ({ embeds := embedsByPattern l } : FileRecord).flatEmbeds

theorem filter_embedsOf (k pattern : String) (positions : List Position) :
    (embedsOf pattern positions).filter (fun e => k = e.pattern) =
      if k = pattern then embedsOf k positions else [] := by
  unfold embedsOf
  rw [List.filter_map]
  by_cases hk : k = pattern
  · subst hk
    simp [Function.comp_def]
  · simp [Function.comp_def, hk]

theorem filter_flatMap_embedsOf {es : List (String × List Position)} (h : (es.map (·.1)).Nodup) (k : String) :
    (es.flatMap fun e => embedsOf e.1 e.2).filter (fun e => k = e.pattern) = embedsOf k ((es.lookup k).getD []) := by
  induction es with
  | nil => rfl
  | cons e es ih =>
    obtain ⟨pattern, positions⟩ := e
    obtain ⟨hnew, h⟩ := List.nodup_cons.mp h
    rw [List.flatMap_cons, List.filter_append, filter_embedsOf, ih h, lookup_cons_ite]
    by_cases hk : k = pattern
    · subst hk
      have hnone : es.lookup k = none := by
        rw [← Option.not_isSome_iff_eq_none, lookup_isSome_iff]
        exact hnew
      simp [hnone, embedsOf]
    · simp [hk]

/-- The embeds of each pattern stay in their order. -/
theorem filter_regrouped (l : List Embed) (k : String) :
    (regrouped l).filter (fun e => k = e.pattern) = l.filter fun e => k = e.pattern := by
  have hvalues : ((embedsByPattern l).entries.lookup k).getD [] = _ := values_embedsByPattern l k
  refine (filter_flatMap_embedsOf (embedsByPattern l).nodup_keys k).trans ?_
  rw [hvalues, embedsOf, List.map_map]
  refine (List.map_congr_left fun e he => ?_).trans (List.map_id _)
  have hk : k = e.pattern := by simpa using (List.mem_filter.mp he).2
  show (⟨k, e.position⟩ : Embed) = e
  rw [hk]

/-- A table of embeds hangs on the order within each pattern alone. -/
theorem embedsByPattern_congr {l l' : List Embed}
    (h : ∀ k, l.filter (fun e => k = e.pattern) = l'.filter fun e => k = e.pattern) :
    embedsByPattern l = embedsByPattern l' := by
  have hpatterns {l l' : List Embed} (h : ∀ k, l.filter (fun e => k = e.pattern) = l'.filter fun e => k = e.pattern)
      (k : String) (hk : ∃ e ∈ l, k = e.pattern) : ∃ e ∈ l', k = e.pattern := by
    obtain ⟨e, he, hke⟩ := hk
    have hmem : e ∈ l.filter fun e => k = e.pattern := List.mem_filter.mpr ⟨he, by simpa using hke⟩
    rw [h] at hmem
    exact ⟨e, (List.mem_filter.mp hmem).1, hke⟩
  apply SortedMap.ext_values
  · intro k
    rw [mem_keys_embedsByPattern, mem_keys_embedsByPattern]
    exact ⟨hpatterns h k, hpatterns (fun k => (h k).symm) k⟩
  · intro k
    rw [values_embedsByPattern, values_embedsByPattern, h]

theorem embedsByPattern_regrouped (ls : List (List Embed)) :
    embedsByPattern (ls.flatMap regrouped) = embedsByPattern ls.flatten := by
  apply embedsByPattern_congr
  intro k
  rw [List.filter_flatMap, List.filter_flatten]
  simp only [filter_regrouped, List.flatMap_def]

end PackageIndex
