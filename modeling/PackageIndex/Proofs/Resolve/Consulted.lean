/-
  PackageIndex.Proofs.Resolve.Consulted — which tags a package asks about.

  `FileView.Consults` says which tags a file asks about, by what stands in the file and in
  its name; nothing is said of the order in which it is judged or of what its lines are
  evaluated to.
  - `mem_tags_of_judges`: a judged file has put exactly these tags to the log.
  - `resolve_allTags`: the tags of a resolved package are those of its files, each once.
-/

import PackageIndex.Proofs.Resolve.Building
import PackageIndex.Proofs.Resolve.Judging
import PackageIndex.Proofs.Text.Bytes

namespace PackageIndex

open BuildContext

variable {ctx : BuildContext} {mode : ResolveMode} {dir : String} {f : FileView} {name tag : String}

/-! ## What a file asks about -/

/-- A file that can be read and is not ignored by its name: its tags decide whether it is built. -/
structure FileView.Considered (f : FileView) (name : String) : Prop where
  name : f.name = .ok name
  error : f.error = .ok ""
  ignoreFile : f.ignoreFile = .ok false

/-- A constraint that stands in a file; legacy lines count where there is no other. -/
inductive FileView.States (f : FileView) (e : Constraint) : Prop
  | goBuild {line : String} : f.goBuild = .ok line → line ≠ "" → Constraint.ofLine line.toList = .ok e → f.States e
  | plusBuild {line : String} {lines : List String} : f.goBuild = .ok "" → f.plusBuild = .ok lines → line ∈ lines →
    Constraint.ofLine line.toList = .ok e → f.States e

/-- The name does not rule the file out, so its constraints are asked. -/
def NotRuledOut (ctx : BuildContext) (name : String) : Prop :=
  (NameTags.ofName name).holds ctx = true ∨ ctx.useAllFiles = true

/-- The name and every constraint of the file hold, or no file is left out. -/
def FileView.IsBuilt (ctx : BuildContext) (f : FileView) (name : String) : Prop :=
  ctx.useAllFiles = true ∨
    (NameTags.ofName name).holds ctx = true ∧ ∀ e, f.States e → holds ctx.satisfies e = true

/-- A source of a package, not of its documentation and not a test, that imports "C". -/
structure FileView.UsesCgo (f : FileView) (name : String) : Prop where
  extension : extension name = ".go"
  notTest : isTestName name = false
  package : ∃ pkg, f.pkgName = .ok pkg ∧ pkg ≠ documentationName
  imports : ∃ imports, f.imports = .ok imports ∧ ∃ i ∈ imports, i.path = "C"

inductive FileView.Consults (ctx : BuildContext) (f : FileView) (tag : String) : Prop
  | name {name : String} : f.Considered name → tag ∈ (NameTags.ofName name).asked ctx → f.Consults ctx tag
  | constraint {name : String} {e : Constraint} : f.Considered name → NotRuledOut ctx name → f.States e → tag ∈ e.tags →
    f.Consults ctx tag
  | cgo {name : String} : f.Considered name → f.IsBuilt ctx name → f.UsesCgo name → tag = "cgo" → f.Consults ctx tag

/-! ## Whether it is built -/

theorem FileView.Considered.name_eq {name' : String} (h : f.Considered name) (h' : f.Considered name') : name' = name :=
  Except.ok.inj (h'.name.symm.trans h.name)

theorem mem_constraints {es : List Constraint} (h : f.constraints name = .ok es) (e : Constraint) :
    e ∈ es ↔ f.States e := by
  obtain ⟨goBuild, hgo, h⟩ := Fallible.bind_eq_ok.mp h
  rw [Fallible.mapError_eq_ok] at hgo
  split at h
  · rename_i hne
    split at h
    · rename_i stated hstated
      cases h
      rw [List.mem_singleton]
      constructor
      · rintro rfl
        exact .goBuild hgo hne hstated
      · intro hs
        cases hs with
        | goBuild hline _ he =>
          rw [hgo] at hline
          cases hline
          exact Except.ok.inj (he.symm.trans hstated)
        | plusBuild hempty =>
          rw [hgo] at hempty
          cases hempty
          exact absurd rfl hne
    · cases h
  · rename_i hempty
    obtain ⟨lines, hlines, h⟩ := Fallible.bind_eq_ok.mp h
    rw [Fallible.mapError_eq_ok] at hlines
    cases h
    rw [Decidable.not_not.mp hempty] at hgo
    rw [List.mem_filterMap]
    constructor
    · rintro ⟨line, hline, he⟩
      exact .plusBuild hgo hlines hline (Constraint.ofLine?_eq_some.mp he)
    · intro hs
      cases hs with
      | goBuild hline hne =>
        rw [hgo] at hline
        cases hline
        exact absurd rfl hne
      | plusBuild _ hlines' hline he =>
        rw [hlines] at hlines'
        cases hlines'
        exact ⟨_, hline, Constraint.ofLine?_eq_some.mpr he⟩

theorem built_iff {built : Bool} {tags : List String} (h : Builds ctx name f built tags) :
    built = true ↔ f.IsBuilt ctx name := by
  unfold FileView.IsBuilt
  cases h with
  | excluded hname hall =>
    rw [hname, hall]
    simp
  | @evaluated es hgood hes =>
    have hmem := mem_constraints hes
    rw [Bool.or_eq_true, List.all_eq_true]
    constructor
    · rintro (hheld | hall)
      · rcases Bool.or_eq_true_iff.mp hgood with hname | hall
        · exact Or.inr ⟨hname, fun e he => hheld e ((hmem e).mpr he)⟩
        · exact Or.inl hall
      · exact Or.inl hall
    · rintro (hall | ⟨-, hheld⟩)
      · exact Or.inr hall
      · exact Or.inl fun e he => hheld e ((hmem e).mp he)

/-- The tags asked about until it is known whether a file is built. -/
theorem mem_tags_of_builds {built : Bool} {tags : List String} (h : Builds ctx name f built tags) :
    tag ∈ tags ↔ tag ∈ (NameTags.ofName name).asked ctx ∨ NotRuledOut ctx name ∧ ∃ e, f.States e ∧ tag ∈ e.tags := by
  unfold NotRuledOut
  cases h with
  | excluded hname hall =>
    rw [hname, hall]
    simp
  | @evaluated es hgood hes =>
    rw [← Bool.or_eq_true, List.mem_append, List.mem_flatMap]
    simp only [hgood, true_and, mem_constraints hes]

theorem consults_iff {built : Bool} {tags : List String} (hf : f.Considered name) (h : Builds ctx name f built tags) :
    f.Consults ctx tag ↔ tag ∈ tags ∨ built = true ∧ f.UsesCgo name ∧ tag = "cgo" := by
  rw [mem_tags_of_builds h, built_iff h]
  constructor
  · intro hc
    cases hc with
    | name hf' ht => exact Or.inl (Or.inl (hf.name_eq hf' ▸ ht))
    | constraint hf' hgood hs ht => exact Or.inl (Or.inr ⟨hf.name_eq hf' ▸ hgood, _, hs, ht⟩)
    | cgo hf' hbuilt hcgo ht =>
      cases hf.name_eq hf'
      exact Or.inr ⟨hbuilt, hcgo, ht⟩
  · rintro ((ht | ⟨hgood, e, hs, ht⟩) | ⟨hbuilt, hcgo, ht⟩)
    · exact .name hf ht
    · exact .constraint hf hgood hs ht
    · exact .cgo hf hbuilt hcgo ht

theorem FileView.Consults.considered (h : f.Consults ctx tag) : ∃ name, f.Considered name := by
  cases h with
  | name hf => exact ⟨_, hf⟩
  | constraint hf => exact ⟨_, hf⟩
  | cgo hf => exact ⟨_, hf⟩

/-! ## What a judged file asked about -/

theorem usesCgo_iff {pkg : String} {imports : List Import} (hlanguage : Language.ofName? name = some .go)
    (hpkg : f.pkgName = .ok pkg) (hdoc : pkg ≠ documentationName) (himports : f.imports = .ok imports) :
    usesCgo name imports = true ↔ f.UsesCgo name := by
  unfold usesCgo
  rw [Bool.and_eq_true, Bool.not_eq_true', List.any_eq_true]
  constructor
  · rintro ⟨htest, i, hi, hpath⟩
    exact ⟨Language.ofName?_eq_go.mp hlanguage, htest, ⟨pkg, hpkg, hdoc⟩, imports, himports, i, hi, eq_of_beq hpath⟩
  · intro h
    obtain ⟨imports', himports', i, hi, hpath⟩ := h.imports
    rw [himports] at himports'
    cases himports'
    exact ⟨h.notTest, i, hi, beq_iff_eq.mpr hpath⟩

theorem mem_tags_of_judgesSource {n n' : Naming} {o o' : Outcome} (h : JudgesSource ctx mode dir n f o o' n')
    (hlanguage : Language.ofName? o.name = some .go) :
    tag ∈ o'.tags ↔ tag ∈ o.tags ∨ f.UsesCgo o.name ∧ tag = "cgo" := by
  cases h with
  | documentation hpkg =>
    constructor
    · exact Or.inl
    · rintro (ht | ⟨hcgo, -⟩)
      · exact ht
      · obtain ⟨pkg, hpkg', hdoc⟩ := hcgo.package
        rw [hpkg] at hpkg'
        exact absurd (Except.ok.inj hpkg').symm hdoc
  | @source pkg _ _ _ imports _ hpkg hdoc _ _ himports _ =>
    rw [List.mem_append, ← usesCgo_iff hlanguage hpkg hdoc himports]
    by_cases hcgo : usesCgo o.name imports = true <;> simp [hcgo]

theorem mem_tags_of_judges {n n' : Naming} {o : Outcome} (h : Judges ctx mode dir n f o n') :
    tag ∈ o.tags ↔ f.Consults ctx tag := by
  cases h with
  | unread hname herror hne =>
    constructor
    · intro ht
      cases ht
    · intro hc
      obtain ⟨_, hf⟩ := hc.considered
      rw [hf.error] at herror
      exact absurd (Except.ok.inj herror).symm hne
  | ignored hname herror hparse hignore =>
    constructor
    · intro ht
      cases ht
    · intro hc
      obtain ⟨_, hf⟩ := hc.considered
      rw [hf.ignoreFile] at hignore
      cases hignore
  | excluded hname herror hparse hignore hbuilt =>
    rw [consults_iff ⟨hname, herror, hignore⟩ (isBuilt_eq_ok.mp hbuilt)]
    simp
  | other hname herror hparse hignore hbuilt hbinary hlanguage =>
    rw [consults_iff ⟨hname, herror, hignore⟩ (isBuilt_eq_ok.mp hbuilt)]
    constructor
    · exact Or.inl
    · rintro (ht | ⟨-, hcgo, -⟩)
      · exact ht
      · exact absurd (Language.ofName?_eq_go.mpr hcgo.extension) hlanguage
  | source hname herror hparse hignore hbuilt hbinary hlanguage hsource =>
    rw [consults_iff ⟨hname, herror, hignore⟩ (isBuilt_eq_ok.mp hbuilt), mem_tags_of_judgesSource hsource hlanguage]
    simp

theorem mem_tags_of_judgesAll {n n' : Naming} {fs : List FileView} {os : List Outcome}
    (h : JudgesAll ctx mode dir n fs os n') : tag ∈ os.flatMap (·.tags) ↔ ∃ f ∈ fs, f.Consults ctx tag := by
  induction h with
  | nil => simp
  | cons hf _ ih =>
    rw [List.flatMap_cons, List.mem_append, ih, mem_tags_of_judges hf]
    simp

/-- The tags of a resolved package, in strictly increasing order, are those that its files ask about. What `#cgo`
lines ask is not among them, and what constraints come to makes no difference but for building a file. -/
theorem resolve_allTags {p : PackageView} {q : BuildPackage} (hp : ReachesFiles p ctx mode)
    (h : resolve p ctx mode = .ok q) :
    (q.allTags.map Utf8.ofString).Pairwise (· < ·) ∧
    ∀ tag, tag ∈ q.allTags ↔ ∃ f ∈ p.files, f.Consults ctx tag := by
  obtain ⟨os, n, hall, rfl⟩ := judgesAll_of_resolve hp h
  constructor
  · rw [List.pairwise_map]
    exact (distinctTags_pairwise _).imp (Utf8.ofString_lt _ _).mpr
  · intro tag
    show tag ∈ distinctTags _ ↔ _
    rw [mem_distinctTags, mem_tags_of_judgesAll hall]

/-- The first file is ruled out by its architecture, the second has a line that cannot be read, the third is a test,
the fourth has a `#cgo` line with a condition, and the last is ignored. -/
def sampleAsking : PackageRecord where
  path := "m"
  srcDir := "/m"
  files := [{ name := "a_windows_arm64.go", pkgName := "m", goBuild := "//go:build netgo" },
    { name := "b.go", pkgName := "m", plusBuild := ["// +build darwin,foo", "// +build !!bar", "// +build linux"] },
    { name := "c_test.go", pkgName := "m", imports := [{ path := "C" }] },
    { name := "d.go", pkgName := "m", imports := [{ path := "C", doc := "#cgo solaris LDFLAGS: -lm" }] },
    { name := "_e.go", ignoreFile := true, goBuild := "//go:build plan9" }]

theorem sampleAsking_allTags : ∃ q, resolve sampleAsking.view .host {} = .ok q ∧
    q.allTags = ["arm64", "cgo", "darwin", "foo", "linux"] ∧
    ∀ tag, tag ∈ q.allTags ↔ ∃ f ∈ sampleAsking.view.files, f.Consults .host tag := by
  have hsome : (resolve sampleAsking.view .host {}).toOption.map (·.allTags) =
      some ["arm64", "cgo", "darwin", "foo", "linux"] := by decide +kernel
  obtain ⟨q, hq, htags⟩ := Fallible.toOption_map_eq_some.mp hsome
  have hreaches : ReachesFiles sampleAsking.view .host {} := ⟨rfl, by decide, rfl, nofun⟩
  exact ⟨q, hq, htags, (resolve_allTags hreaches hq).2⟩

end PackageIndex
