/-
  PackageIndex.Proofs.Record.Texts — the texts of records, in the order of their writing.

  - `mem_of_mem_flatEmbeds`: grouping embeds by pattern makes no embed of its own.
-/

import PackageIndex.Proofs.Record.Embeds
import PackageIndex.Record.Basic

namespace PackageIndex

def Import.texts (i : Import) : List String := [i.path, i.doc, i.position.filename]

def Embed.texts (e : Embed) : List String := [e.pattern, e.position.filename]

def FileRecord.texts (f : FileRecord) : List String :=
  [f.error, f.parseError, f.synopsis, f.name, f.pkgName, f.importComment, f.goBuild] ++
    (f.plusBuild ++ (f.imports.flatMap Import.texts ++ f.flatEmbeds.flatMap Embed.texts))

def PackageRecord.texts (p : PackageRecord) : List String :=
  [p.error, p.path, p.srcDir, p.dir] ++ p.files.flatMap FileRecord.texts

def textsOf (ps : List PackageRecord) : List String := ps.map (·.dir) ++ ps.flatMap PackageRecord.texts

theorem forall_mem_fileTexts {f : FileRecord} {P : String → Prop} : (∀ s ∈ f.texts, P s) ↔
    (P f.error ∧ P f.parseError ∧ P f.synopsis ∧ P f.name ∧ P f.pkgName ∧ P f.importComment ∧ P f.goBuild) ∧
      (∀ line ∈ f.plusBuild, P line) ∧ (∀ i ∈ f.imports, ∀ s ∈ i.texts, P s) ∧ ∀ e ∈ f.flatEmbeds, ∀ s ∈ e.texts, P s := by
  simp only [FileRecord.texts, List.forall_mem_append, List.forall_mem_cons, List.forall_mem_flatMap, List.not_mem_nil,
    false_implies, implies_true, and_true]

theorem flatEmbeds_eq_nil {f : FileRecord} (h : f.embeds = ∅) : f.flatEmbeds = [] := by
  unfold FileRecord.flatEmbeds
  rw [h]
  rfl

/-- The positions of a pattern are those of its embeds, in their order. -/
theorem positions_of_mem_embeds {l : List Embed} {pattern : String} {positions : List Position}
    (h : (pattern, positions) ∈ (embedsByPattern l).entries) :
    positions = (l.filter fun e => pattern = e.pattern).map (·.position) := by
  rw [← values_embedsByPattern, SortedMap.values, SortedMap.mem_entries_iff.mp h]
  rfl

/-- A file's embeds are among those that its table was made of. -/
theorem mem_of_mem_flatEmbeds {f : FileRecord} {l : List Embed} (hf : f.embeds = embedsByPattern l) {e : Embed}
    (h : e ∈ f.flatEmbeds) : e ∈ l := by
  obtain ⟨⟨pattern, positions⟩, hentry, hmem⟩ := List.mem_flatMap.mp h
  obtain ⟨p, hp, rfl⟩ := List.mem_map.mp hmem
  rw [hf] at hentry
  rw [positions_of_mem_embeds hentry] at hp
  obtain ⟨e, he, rfl⟩ := List.mem_map.mp hp
  obtain ⟨he, hpattern⟩ := List.mem_filter.mp he
  have hpattern : pattern = e.pattern := by simpa using hpattern
  rw [hpattern]
  exact he

theorem positions_ne_nil {l : List Embed} {e : String × List Position} (h : e ∈ (embedsByPattern l).entries) : e.2 ≠ [] := by
  obtain ⟨pattern, positions⟩ := e
  have hkey : pattern ∈ (embedsByPattern l).keys := List.mem_map_of_mem (f := (·.1)) h
  obtain ⟨e, he, rfl⟩ := mem_keys_embedsByPattern.mp hkey
  rw [positions_of_mem_embeds h]
  have hmem : e.position ∈ (l.filter fun e' => e.pattern = e'.pattern).map (·.position) :=
    List.mem_map_of_mem (List.mem_filter.mpr ⟨he, by simp⟩)
  exact List.ne_nil_of_mem hmem

end PackageIndex
