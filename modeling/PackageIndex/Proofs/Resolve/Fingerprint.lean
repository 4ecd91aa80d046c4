/-
  PackageIndex.Proofs.Resolve.Fingerprint — the tags of a package stand for the context it was resolved for.

  A context that has the same switches and agrees on the tags asked about judges every file
  as the first one did, and so asks about the same tags again.
  - `Judges.congr`, `JudgesAll.congr`: one file, and a run over the files.
  - `resolve_congr`: the package is the same in every field, so an answer may be kept under
    its tags. Only `#cgo` lines ask the context without a record of it.
-/

import PackageIndex.Proofs.Resolve.Building
import PackageIndex.Proofs.Resolve.Judging

namespace PackageIndex

variable {ctx ctx' : BuildContext} {mode : ResolveMode} {dir : String}

/-- What of a context an answer hangs on that asked about these tags. -/
structure BuildContext.Agrees (ctx ctx' : BuildContext) (tags : List String) : Prop where
  compiler : ctx'.compiler = ctx.compiler
  cgoEnabled : ctx'.cgoEnabled = ctx.cgoEnabled
  useAllFiles : ctx'.useAllFiles = ctx.useAllFiles
  satisfies : ∀ tag ∈ tags, ctx'.satisfies tag = ctx.satisfies tag

theorem BuildContext.Agrees.mono {tags more : List String} (h : ctx.Agrees ctx' more) (hsub : tags ⊆ more) :
    ctx.Agrees ctx' tags :=
  { h with satisfies := fun tag ht => h.satisfies tag (hsub ht) }

def FileView.AsksNoFlags (f : FileView) : Prop :=
  ∀ imports, f.imports = .ok imports → ∀ i ∈ imports, i.path = "C" → i.doc = ""

/-! ## Sources -/

theorem cgoOf_of_no_docs {imports : List Import} (h : ∀ i ∈ imports, i.path = "C" → i.doc = "") (file : String) :
    cgoOf ctx' dir file imports = cgoOf ctx dir file imports := by
  have hnone : (imports.filter (·.path == "C")).filter (·.doc ≠ "") = [] := by
    rw [List.filter_eq_nil_iff]
    intro i hi
    obtain ⟨hmem, hpath⟩ := List.mem_filter.mp hi
    have hdoc := h i hmem (eq_of_beq hpath)
    simp [hdoc]
  simp only [cgoOf, hnone, List.map_nil]

theorem listingOf_congr (h : ctx'.cgoEnabled = ctx.cgoEnabled) (n : Naming) (file pkg : String)
    (imports : List Import) : listingOf ctx' n file pkg imports = listingOf ctx n file pkg imports := by
  unfold listingOf sourceListing
  rw [h]

theorem JudgesSource.congr {n n' : Naming} {f : FileView} {o o' : Outcome} (hf : f.AsksNoFlags)
    (h : JudgesSource ctx mode dir n f o o' n') (hcgo : ctx'.cgoEnabled = ctx.cgoEnabled) :
    JudgesSource ctx' mode dir n f o o' n' := by
  cases h with
  | documentation hpkg => exact .documentation hpkg
  | @source pkg named _ commented imports embeds hpkg hdoc hnamed hcommented himports hembeds =>
    have hlisting := listingOf_congr hcgo n o.name pkg imports
    have hflags : cgoOf ctx' dir o.name imports = cgoOf ctx dir o.name imports :=
      cgoOf_of_no_docs (hf imports himports) o.name
    rw [← hlisting] at hembeds
    have hsource := JudgesSource.source hpkg hdoc hnamed hcommented himports hembeds
    rw [hlisting, hflags] at hsource
    exact hsource

theorem tags_of_judgesSource {n n' : Naming} {f : FileView} {o o' : Outcome}
    (h : JudgesSource ctx mode dir n f o o' n') : o.tags ⊆ o'.tags := by
  cases h with
  | documentation => exact List.Subset.refl _
  | source => exact List.subset_append_left _ _

/-! ## Files -/

theorem isBuilt_congr {name : String} {f : FileView} {built : Bool} {tags : List String}
    (h : isBuilt ctx name f = .ok (built, tags)) (hagree : ctx.Agrees ctx' tags) :
    isBuilt ctx' name f = .ok (built, tags) :=
  isBuilt_eq_ok.mpr ((isBuilt_eq_ok.mp h).congr hagree.useAllFiles hagree.satisfies)

theorem Judges.congr {n n' : Naming} {f : FileView} {o : Outcome} (hf : f.AsksNoFlags)
    (h : Judges ctx mode dir n f o n') (hagree : ctx.Agrees ctx' o.tags) : Judges ctx' mode dir n f o n' := by
  cases h with
  | unread hname herror hne => exact .unread hname herror hne
  | ignored hname herror hparse hignore => exact .ignored hname herror hparse hignore
  | excluded hname herror hparse hignore hbuilt =>
    exact .excluded hname herror hparse hignore (isBuilt_congr hbuilt hagree)
  | other hname herror hparse hignore hbuilt hbinary hlanguage =>
    exact .other hname herror hparse hignore (isBuilt_congr hbuilt hagree) hbinary hlanguage
  | source hname herror hparse hignore hbuilt hbinary hlanguage hsource =>
    have hbuilt' := isBuilt_congr hbuilt (hagree.mono (tags_of_judgesSource hsource))
    exact .source hname herror hparse hignore hbuilt' hbinary hlanguage (hsource.congr hf hagree.cgoEnabled)

theorem JudgesAll.congr {n n' : Naming} {fs : List FileView} {os : List Outcome} (hfs : ∀ f ∈ fs, f.AsksNoFlags)
    (h : JudgesAll ctx mode dir n fs os n') (hagree : ctx.Agrees ctx' (os.flatMap (·.tags))) :
    JudgesAll ctx' mode dir n fs os n' := by
  induction h with
  | nil => exact .nil _
  | cons hf _ ih =>
    rw [List.flatMap_cons] at hagree
    have hfirst := hf.congr (hfs _ List.mem_cons_self) (hagree.mono (List.subset_append_left _ _))
    have hrest := ih (fun f hmem => hfs f (List.mem_cons_of_mem _ hmem)) (hagree.mono (List.subset_append_right _ _))
    exact .cons hfirst hrest

/-! ## Packages -/

theorem compilerProblem_congr (h : ctx'.compiler = ctx.compiler) : compilerProblem ctx' = compilerProblem ctx := by
  unfold compilerProblem
  rw [h]

theorem assemble_congr (h : ctx'.compiler = ctx.compiler) (p : PackageView) (os : List Outcome) (n : Naming) :
    assemble ctx' p os n = assemble ctx p os n := by
  unfold assemble
  rw [compilerProblem_congr h]

/-- A package without comments in front of its imports of "C" resolves to the same for every context that agrees
on its tags. -/
theorem resolve_congr {p : PackageView} {q : BuildPackage} (hfiles : ∀ f ∈ p.files, f.AsksNoFlags)
    (hmode : mode.allowBinary = false) (h : resolve p ctx mode = .ok q) (hagree : ctx.Agrees ctx' q.allTags) :
    resolve p ctx' mode = .ok q := by
  have hearly : p.early? ctx' mode = p.early? ctx mode := by
    unfold PackageView.early?
    rw [compilerProblem_congr hagree.compiler]
  rw [resolve_eq_ok hmode] at h ⊢
  rcases h with hanswered | ⟨hnone, os, n, hall, rfl⟩
  · exact Or.inl (hearly.trans hanswered)
  · have hlog : os.flatMap (·.tags) ⊆ (assemble ctx p os n).allTags := by
      intro tag ht
      exact BuildContext.mem_distinctTags.mpr ht
    have hrun := hall.congr hfiles (hagree.mono hlog)
    exact Or.inr ⟨hearly.trans hnone, os, n, hrun, (assemble_congr hagree.compiler p os n).symm⟩

def sampleTagged : PackageRecord where
  path := "m"
  srcDir := "/m"
  files := [{ name := "a.go", pkgName := "m", goBuild := "//go:build linux && (cgo || !netgo)" },
    { name := "b_linux.go", pkgName := "m", imports := [{ path := "C" }] }, { name := "c.S" },
    { name := "d.go", pkgName := "m", plusBuild := ["// +build windows"] }]

/-- What a Linux host answered is the answer for Android too. -/
theorem sampleTagged_resolve_congr : ∃ q, resolve sampleTagged.view .host {} = .ok q ∧
    q.allTags = ["cgo", "linux", "netgo", "windows"] ∧
    resolve sampleTagged.view (.ofTarget "android" "arm64") {} = .ok q := by
  have hsome : (resolve sampleTagged.view .host {}).toOption.map (·.allTags) =
      some ["cgo", "linux", "netgo", "windows"] := by decide +kernel
  obtain ⟨q, hq, htags⟩ := Fallible.toOption_map_eq_some.mp hsome
  have hdocs : ∀ g ∈ sampleTagged.files, ∀ i ∈ g.imports, i.path = "C" → i.doc = "" := by decide
  have hfiles : ∀ f ∈ sampleTagged.view.files, f.AsksNoFlags := by
    intro f hf imports himports
    obtain ⟨g, hg, rfl⟩ := List.mem_map.mp hf
    cases himports
    exact hdocs g hg
  have hagree : BuildContext.host.Agrees (.ofTarget "android" "arm64") q.allTags := by
    rw [htags]
    exact ⟨rfl, rfl, rfl, by decide⟩
  exact ⟨q, hq, htags, resolve_congr hfiles rfl hq hagree⟩

end PackageIndex
