/-
  PackageIndex.Proofs.Index.Relative — where in its module a directory lies.

  A directory is told from the root of its module by components alone, so the spelling of
  neither makes a difference: the prefix `/m` is one of `/m/a`, not of `/m2`.
  - `LeadsTo root dir names`: by these names one gets from the root to the directory.
    `relativeNames?_eq_some`: they are found just where there are such names.
  - `steps`: what is left of a spelling without the slashes and dots that say nothing.
    `leadsTo_of_steps`: an absolute path whose steps are those of the root and then names
    leads down by these names.
  - `relativeTo_inverts`: so a package is placed below its root by what was joined to it,
    or lies outside, which is the only way to fail.
-/

import PackageIndex.Index.Encoding
import PackageIndex.Proofs.Path

namespace PackageIndex

namespace Path

variable {root dir p : String} {names : List String} {cs : List Component}

/-! ## Names among components -/

def Component.name? : Component → Option String
  | .name s => some s
  | _ => none

theorem names?_eq_some : names? cs = some names ↔ .root ∉ cs ∧ .up ∉ cs ∧ names = cs.filterMap Component.name? := by
  induction cs generalizing names with
  | nil => simp [names?, eq_comm]
  | cons c cs ih =>
    cases c with
    | root => simp [names?]
    | up => simp [names?]
    | here => simp [names?, Component.name?, List.filterMap_cons, ih]
    | name s =>
      rw [names?, Option.map_eq_some_iff]
      constructor
      · rintro ⟨more, hmore, rfl⟩
        obtain ⟨hroot, hup, rfl⟩ := ih.mp hmore
        simp [hroot, hup, Component.name?]
      · intro h
        obtain ⟨hroot, hup, hnames⟩ := h
        refine ⟨cs.filterMap Component.name?, ih.mpr ⟨?_, ?_, rfl⟩, ?_⟩
        · exact fun hmem => hroot (List.mem_cons_of_mem _ hmem)
        · exact fun hmem => hup (List.mem_cons_of_mem _ hmem)
        · simpa [Component.name?] using hnames.symm

theorem names?_map_name (names : List String) : names? (names.map .name) = some names := by
  have hmap := names?_append [] names
  simpa [names?] using hmap

/-- Without a leading dot, components that only lead down are names throughout. -/
theorem eq_map_name (h : names? cs = some names) (hhere : .here ∉ cs) : cs = names.map .name := by
  induction cs generalizing names with
  | nil =>
    cases h
    rfl
  | cons c cs ih =>
    have hrest : .here ∉ cs := fun hmem => hhere (List.mem_cons_of_mem _ hmem)
    cases c with
    | here => exact absurd List.mem_cons_self hhere
    | name s =>
      obtain ⟨more, hmore, rfl⟩ := Option.map_eq_some_iff.mp h
      rw [List.map_cons, ← ih hmore hrest]
    | _ => cases h

theorem here_not_mem_components (h : isAbsolute p = true) : .here ∉ components p := by
  unfold components
  rw [if_pos h]
  intro hmem
  rcases List.mem_cons.mp hmem with hroot | hinner
  · cases hroot
  · obtain ⟨piece, -, hpiece⟩ := List.mem_filterMap.mp hinner
    unfold Component.ofPiece? at hpiece
    split at hpiece
    · cases hpiece
    · split at hpiece <;> cases hpiece

/-! ## From the root to the directory -/

/-- By these names one gets from `root` to `dir`. A relative path is one from the root, and does not lead up. -/
inductive LeadsTo (root dir : String) : List String → Prop
  | below {names : List String} : isAbsolute dir = true → components dir = components root ++ names.map .name →
    LeadsTo root dir names
  | relative : isAbsolute dir = false → .up ∉ components dir →
    LeadsTo root dir ((components dir).filterMap Component.name?)

theorem relativeNames?_eq_some : relativeNames? root dir = some names ↔ LeadsTo root dir names := by
  unfold relativeNames?
  by_cases habs : isAbsolute dir = true
  · rw [if_pos habs, Option.bind_eq_some_iff]
    constructor
    · intro h
      obtain ⟨rest, hrest, hnames⟩ := h
      have happend := append_of_isPrefixOf? hrest
      have hhere : .here ∉ rest := by
        intro hmem
        apply here_not_mem_components habs
        rw [← happend]
        exact List.mem_append_right _ hmem
      exact .below habs (by rw [← happend, ← eq_map_name hnames hhere])
    · intro h
      cases h with
      | below _ hcs => exact ⟨names.map .name, by rw [hcs, isPrefixOf?_append], names?_map_name names⟩
      | relative hrel => rw [hrel] at habs; cases habs
  · rw [if_neg habs]
    rw [Bool.not_eq_true] at habs
    constructor
    · intro h
      obtain ⟨-, hup, rfl⟩ := names?_eq_some.mp h
      exact .relative habs hup
    · intro h
      cases h with
      | below habs' => rw [habs] at habs'; cases habs'
      | relative _ hup => exact names?_eq_some.mpr ⟨root_not_mem_components habs, hup, rfl⟩

theorem components_of_leadsTo (h : LeadsTo root dir names) : components ("/".intercalate names) = names.map .name :=
  components_intercalate (names_of_relativeNames? (relativeNames?_eq_some.mpr h))

/-! ## Spellings -/

/-- The pieces of a path, without those that say nothing: the empty ones, which slashes in a row or at
the end bound, and dots. -/
def steps (p : String) : List (List Char) := (pieces p).filter fun piece => piece ≠ [] ∧ piece ≠ ['.']

theorem components_eq_steps (h : isAbsolute p = true) :
    components p = .root :: (steps p).filterMap Component.ofPiece? := by
  unfold components steps
  rw [if_pos h, List.filterMap_filter]
  congr 1
  apply List.filterMap_congr
  intro piece _
  by_cases hempty : piece = []
  · simp [Component.ofPiece?, hempty]
  · by_cases hdot : piece = ['.'] <;> simp [Component.ofPiece?, hempty, hdot]

/-- However the root and the rest are spelt, the steps behind those of the root lead down. -/
theorem leadsTo_of_steps (hroot : isAbsolute root = true) (hdir : isAbsolute dir = true) (hup : ".." ∉ names)
    (h : steps dir = steps root ++ names.map String.toList) : LeadsTo root dir names := by
  have hnames : ∀ s ∈ names, Component.ofPiece? s.toList = some (.name s) := by
    intro s hs
    have hmem : s.toList ∈ steps dir := by
      rw [h]
      exact List.mem_append_right _ (List.mem_map_of_mem hs)
    have hsays := (List.mem_filter.mp hmem).2
    have hdots : s.toList ≠ ['.', '.'] := by
      intro he
      apply hup
      have hs' : s = ".." := String.toList_inj.mp he
      exact hs' ▸ hs
    simp only [ne_eq, decide_not, Bool.decide_and, Bool.and_eq_true, Bool.not_eq_true', decide_eq_false_iff_not] at hsays
    simp [Component.ofPiece?, hsays.1, hsays.2, hdots]
  have hcs : components dir = components root ++ names.map .name := by
    rw [components_eq_steps hdir, components_eq_steps hroot, h, List.filterMap_append, filterMap_ofPiece? hnames]
    rfl
  exact .below hdir hcs

end Path

/-! ## Packages -/

theorem relativeTo_of_leadsTo {root : String} {p : PackageRecord} {names : List String}
    (h : Path.LeadsTo root p.dir names) : p.relativeTo root = .ok { p with dir := "/".intercalate names } := by
  unfold PackageRecord.relativeTo Path.relative?
  rw [Path.relativeNames?_eq_some.mpr h]
  rfl

theorem relativeTo_of_outside {root : String} {p : PackageRecord} (h : ∀ names, ¬ Path.LeadsTo root p.dir names) :
    p.relativeTo root = .error (.outsideModule p.dir root) := by
  unfold PackageRecord.relativeTo Path.relative?
  cases hnames : Path.relativeNames? root p.dir with
  | none => rfl
  | some names => exact absurd (Path.relativeNames?_eq_some.mp hnames) (h names)

/-- A package lies where its directory leads to from the root, and is outside just where it does not. Its place is
spelt by names that are its components, which behind those of the root are the directory's own; and an absolute path
that was written below the root is told by the names in it, with whatever slashes and dots. -/
theorem relativeTo_inverts (root : String) (p : PackageRecord) :
    (∀ q, p.relativeTo root = .ok q ↔
      ∃ names, Path.LeadsTo root p.dir names ∧ q = { p with dir := "/".intercalate names }) ∧
    ((∀ names, ¬ Path.LeadsTo root p.dir names) ↔ p.relativeTo root = .error (.outsideModule p.dir root)) ∧
    (∀ names, Path.LeadsTo root p.dir names →
      Path.components ("/".intercalate names) = names.map .name ∧
      (Path.isAbsolute p.dir = true →
        Path.components p.dir = Path.components root ++ Path.components ("/".intercalate names))) ∧
    (∀ names, Path.isAbsolute root = true → Path.isAbsolute p.dir = true → ".." ∉ names →
      Path.steps p.dir = Path.steps root ++ names.map String.toList →
      p.relativeTo root = .ok { p with dir := "/".intercalate names } ∧
      Path.components ("/".intercalate names) = names.map .name) := by
  refine ⟨?_, ⟨relativeTo_of_outside, ?_⟩, ?_, ?_⟩
  · intro q
    constructor
    · intro h
      by_cases hany : ∃ names, Path.LeadsTo root p.dir names
      · obtain ⟨names, hnames⟩ := hany
        rw [relativeTo_of_leadsTo hnames] at h
        exact ⟨names, hnames, (Except.ok.inj h).symm⟩
      · rw [relativeTo_of_outside (not_exists.mp hany)] at h
        cases h
    · rintro ⟨names, hnames, rfl⟩
      exact relativeTo_of_leadsTo hnames
  · intro h names hnames
    rw [relativeTo_of_leadsTo hnames] at h
    cases h
  · intro names hnames
    have hplace := Path.components_of_leadsTo hnames
    refine ⟨hplace, fun habs => ?_⟩
    cases hnames with
    | below _ hcs => rw [hplace, hcs]
    | relative hrel => rw [hrel] at habs; cases habs
  · intro names hroot hdir hup hsteps
    have hnames := Path.leadsTo_of_steps hroot hdir hup hsteps
    exact ⟨relativeTo_of_leadsTo hnames, Path.components_of_leadsTo hnames⟩

def sampleSpelt : PackageRecord where
  path := "m"
  srcDir := "/m"
  dir := "//m/./x//a/./b/."

theorem sampleSpelt_inverts :
    Path.steps sampleSpelt.dir = Path.steps "/m/x/./" ++ ["a", "b"].map String.toList ∧
    sampleSpelt.relativeTo "/m/x/./" = .ok { sampleSpelt with dir := "a/b" } ∧
    Path.components sampleSpelt.dir = Path.components "/m/x/./" ++ Path.components "a/b" ∧
    sampleSpelt.relativeTo "/m/x/a/b2" = .error (.outsideModule sampleSpelt.dir "/m/x/a/b2") := by
  have hroot : Path.isAbsolute "/m/x/./" = true := by decide
  have hdir : Path.isAbsolute sampleSpelt.dir = true := by decide
  have hsteps : Path.steps sampleSpelt.dir = Path.steps "/m/x/./" ++ ["a", "b"].map String.toList := by decide +kernel
  have hspelt : "/".intercalate ["a", "b"] = "a/b" := by decide +kernel
  obtain ⟨-, -, hplace, hwritten⟩ := relativeTo_inverts "/m/x/./" sampleSpelt
  have hfound := (hwritten ["a", "b"] hroot hdir (by decide) hsteps).1
  have hleads := Path.leadsTo_of_steps hroot hdir (by decide) hsteps
  have hcs := (hplace ["a", "b"] hleads).2 hdir
  rw [hspelt] at hfound hcs
  have houtside : ∀ names, ¬ Path.LeadsTo "/m/x/a/b2" sampleSpelt.dir names := by
    intro names hnames
    rw [← Path.relativeNames?_eq_some] at hnames
    have hnone : Path.relativeNames? "/m/x/a/b2" sampleSpelt.dir = none := by decide +kernel
    rw [hnone] at hnames
    cases hnames
  exact ⟨hsteps, hfound, hcs, (relativeTo_inverts "/m/x/a/b2" sampleSpelt).2.1.mp houtside⟩

end PackageIndex
