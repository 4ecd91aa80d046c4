/-
  PackageIndex.Proofs.Resolve.Coherence — the sources of a package that has no error are of one package.

  - `ofPackage_of_judges`: a source without a problem is of the package as it is named when
    the source has been judged, or tests it from outside.
  - `resolve_coherent`: all sources are of the package as it is named in the end. An empty
    name counts as none, so a test of the package `_test` may also be listed, which tests
    nothing; `sampleUnnamed_incoherent` is such a package.
-/

import PackageIndex.Proofs.Resolve.Naming

namespace PackageIndex

variable {ctx : BuildContext} {mode : ResolveMode} {dir : String} {f : FileView}

/-! ## Tests from outside -/

theorem listingOf_of_tested {n : Naming} {file pkg tested : String} (imports : List Import)
    (h : testedPackage? n file pkg = some tested) : listingOf ctx n file pkg imports = .xtestGo := by
  obtain ⟨htest, -⟩ := testedPackage?_eq_some h
  unfold listingOf sourceListing usesCgo
  rw [h, htest]
  rfl

theorem listingOf_of_not_tested {n : Naming} {file pkg : String} (imports : List Import)
    (h : testedPackage? n file pkg = none) : listingOf ctx n file pkg imports ≠ .xtestGo := by
  unfold listingOf sourceListing
  rw [h]
  cases usesCgo file imports <;> cases ctx.cgoEnabled <;> cases isTestName file <;> decide

/-! ## The package of a source -/

def sourceListings : List Listing := [.go, .cgo, .testGo, .xtestGo]

theorem Listing.not_source_of_ignored? {name : String} {l : Listing} (h : ignored? name = some l) :
    l ∉ sourceListings := by
  obtain ⟨language, -, hl⟩ := Option.map_eq_some_iff.mp h
  split at hl <;> subst hl <;> decide

theorem Listing.language_of_source {l : Language} (h : ofLanguage l ∈ sourceListings) : l = .go := by
  cases l <;> first | rfl | exact absurd h (by decide)

/-- Only a source that is built is listed with the sources. -/
theorem judgesSource_of_judges {n n' : Naming} {o : Outcome} {l : Listing} (h : Judges ctx mode dir n f o n')
    (hl : o.listing = some l) (hmem : l ∈ sourceListings) :
    ∃ known, Language.ofName? known.name = some .go ∧ JudgesSource ctx mode dir n f known o n' := by
  cases h with
  | unread => cases hl
  | @ignored name =>
    simp only at hl
    split at hl
    · cases hl
    · exact absurd hmem (Listing.not_source_of_ignored? hl)
  | excluded => exact absurd hmem (Listing.not_source_of_ignored? hl)
  | other _ _ _ _ _ _ hlanguage =>
    obtain ⟨language, hname, rfl⟩ := Option.map_eq_some_iff.mp hl
    rw [Listing.language_of_source hmem] at hname
    exact absurd hname hlanguage
  | source _ _ _ _ _ _ hlanguage hsource =>
    refine ⟨_, ?_, hsource⟩
    exact hlanguage

/-- A source that met no other name is of the package as it is named now, or tests it from outside. -/
theorem package_of_judgesSource {n n' : Naming} {o o' : Outcome} {l : Listing}
    (h : JudgesSource ctx mode dir n f o o' n') (hclean : o'.problems = []) (hl : o'.listing = some l) :
    (l ∈ [Listing.go, .cgo, .testGo] → f.pkgName = .ok n'.name) ∧
    (l = .xtestGo → f.pkgName = .ok (n'.name ++ "_test")) := by
  cases h with
  | documentation =>
    cases hl
    exact ⟨fun h => absurd h (by decide), nofun⟩
  | @source pkg named _ commented imports embeds hpkg hdoc hnamed hcommented himports hembeds =>
    have hmet : (n.meet dir o.name ((testedPackage? n o.name pkg).getD pkg)).2 = [] := by
      simp only [List.append_eq_nil_iff] at hclean
      exact hclean.1.1.2
    have hname : n'.name = (testedPackage? n o.name pkg).getD pkg := by
      rw [name_of_meetCommentOf hcommented, name_of_meetSynopsis hnamed, Naming.name_of_meet_eq_nil hmet]
    have hlisting : listingOf ctx n o.name pkg imports = l := Option.some.inj hl
    cases htested : testedPackage? n o.name pkg with
    | none =>
      rw [htested] at hname
      refine ⟨fun _ => hname ▸ hpkg, ?_⟩
      rintro rfl
      exact absurd hlisting (listingOf_of_not_tested imports htested)
    | some tested =>
      rw [htested] at hname
      rw [listingOf_of_tested imports htested] at hlisting
      subst hlisting
      refine ⟨fun h => absurd h (by decide), fun _ => ?_⟩
      rw [hname, hpkg, (testedPackage?_eq_some htested).2]
      rfl

/-! ## Packages -/

/-- What is said of a file of the package `pkg`, where it is listed with the sources. -/
structure OfPackage (pkg : String) (f : FileView) (o : Outcome) : Prop where
  name : f.name = .ok o.name
  inside : ∀ l ∈ [Listing.go, .cgo, .testGo], o.listing = some l → f.pkgName = .ok pkg
  /-- The second case is that of a test met before any name was known. -/
  outside : o.listing = some .xtestGo → f.pkgName = .ok (pkg ++ "_test") ∨ f.pkgName = .ok "_test"

def FileView.Declares (f : FileView) : Prop := ∀ name, f.name = .ok name → extension name = ".go" → f.pkgName ≠ .ok ""

theorem extension_of_judgesSource {n n' : Naming} {known o : Outcome} (h : JudgesSource ctx mode dir n f known o n')
    (hlanguage : Language.ofName? known.name = some .go) : extension o.name = ".go" := by
  rw [← Language.ofName?_eq_go]
  cases h with
  | documentation => exact hlanguage
  | source => exact hlanguage

/-- `pkg` is the name in the end, which is the name from the time on at which there is one. -/
theorem ofPackage_of_judges {n n' : Naming} {o : Outcome} (h : Judges ctx mode dir n f o n') (hclean : o.problems = [])
    (hdeclares : f.Declares) {pkg : String} (hend : n'.name ≠ "" → pkg = n'.name) : OfPackage pkg f o := by
  refine ⟨name_of_judged h, ?_, ?_⟩
  · intro l hmem hl
    have hsource : l ∈ sourceListings := by
      revert hmem
      cases l <;> decide
    obtain ⟨known, hlanguage, hjudged⟩ := judgesSource_of_judges h hl hsource
    have hpkg := (package_of_judgesSource hjudged hclean hl).1 hmem
    have hnamed : n'.name ≠ "" := by
      intro hempty
      rw [hempty] at hpkg
      exact hdeclares o.name (name_of_judged h) (extension_of_judgesSource hjudged hlanguage) hpkg
    rw [hend hnamed]
    exact hpkg
  · intro hl
    obtain ⟨known, -, hjudged⟩ := judgesSource_of_judges h hl (by decide)
    have hpkg := (package_of_judgesSource hjudged hclean hl).2 rfl
    by_cases hempty : n'.name = ""
    · rw [hempty] at hpkg
      exact Or.inr hpkg
    · rw [hend hempty]
      exact Or.inl hpkg

theorem ofPackage_of_judgesAll {n m : Naming} {fs : List FileView} {os : List Outcome}
    (h : JudgesAll ctx mode dir n fs os m) (hclean : ∀ o ∈ os, o.problems = []) (hdeclares : ∀ f ∈ fs, f.Declares) :
    List.Forall₂ (OfPackage m.name) fs os := by
  induction h with
  | nil => exact .nil
  | cons hf hfs ih =>
    rw [List.forall_mem_cons] at hclean hdeclares
    -- the name that the first file leaves is the name in the end, if it leaves one
    have hfirst := ofPackage_of_judges hf hclean.1 hdeclares.1 (name_of_judgesAll hfs)
    exact .cons hfirst (ih hclean.2 hdeclares.2)

theorem problems_of_assemble {p : PackageView} {os : List Outcome} {n : Naming}
    (h : (assemble ctx p os n).error = none) : ∀ o ∈ os, o.problems = [] := by
  have hnone : os.flatMap (·.problems) = [] := by
    cases hproblems : os.flatMap (·.problems) with
    | nil => rfl
    | cons problem rest =>
      unfold assemble at h
      rw [hproblems] at h
      cases h
  exact List.flatMap_eq_nil_iff.mp hnone

/-- The sources of a package without an error are of the package it is named, its tests from outside of the one
named after it. Only a test of the package `_test` may be listed where another name was found after it. -/
theorem resolve_coherent {p : PackageView} {q : BuildPackage} (hdeclares : ∀ f ∈ p.files, f.Declares)
    (hp : ReachesFiles p ctx mode) (h : resolve p ctx mode = .ok q) (herror : q.error = none) :
    ∃ os, List.Forall₂ (OfPackage q.name) p.files os ∧ q.goFiles = filesIn .go os ∧ q.cgoFiles = filesIn .cgo os ∧
      q.testGoFiles = filesIn .testGo os ∧ q.xtestGoFiles = filesIn .xtestGo os := by
  obtain ⟨os, n, hall, rfl⟩ := judgesAll_of_resolve hp h
  have hfiles := ofPackage_of_judgesAll hall (problems_of_assemble herror) hdeclares
  exact ⟨os, hfiles, rfl, rfl, rfl, rfl⟩

theorem PackageRecord.view_declares {p : PackageRecord} (h : ∀ g ∈ p.files, extension g.name = ".go" → g.pkgName ≠ "") :
    ∀ f ∈ p.view.files, f.Declares := by
  intro f hf name hname hext hempty
  obtain ⟨g, hg, rfl⟩ := List.mem_map.mp hf
  cases hname
  exact h g hg hext (Except.ok.inj hempty)

def sampleCoherent : PackageRecord where
  path := "m"
  srcDir := "/m"
  files := [{ name := "a_test.go", pkgName := "m_test" }, { name := "b.go", pkgName := "m" },
    { name := "c_test.go", pkgName := "m" }, { name := "d.c" }]

theorem sampleCoherent_coherent : ∃ q os, resolve sampleCoherent.view .host {} = .ok q ∧
    q.error = none ∧ q.name = "m" ∧ q.goFiles = ["b.go"] ∧ q.xtestGoFiles = ["a_test.go"] ∧
    List.Forall₂ (OfPackage "m") sampleCoherent.view.files os := by
  have hsome : (resolve sampleCoherent.view .host {}).toOption.map
      (fun q => (q.error, q.name, q.goFiles, q.xtestGoFiles)) = some (none, "m", ["b.go"], ["a_test.go"]) := by
    decide +kernel
  obtain ⟨q, hq, hfields⟩ := Fallible.toOption_map_eq_some.mp hsome
  obtain ⟨herror, hname, hgo, hxtest⟩ : q.error = none ∧ q.name = "m" ∧ q.goFiles = ["b.go"] ∧
      q.xtestGoFiles = ["a_test.go"] := by simpa using hfields
  have hnamed : ∀ g ∈ sampleCoherent.files, extension g.name = ".go" → g.pkgName ≠ "" := by decide
  have hreaches : ReachesFiles sampleCoherent.view .host {} := ⟨rfl, by decide, rfl, nofun⟩
  obtain ⟨os, hfiles, -⟩ := resolve_coherent (PackageRecord.view_declares hnamed) hreaches hq herror
  rw [hname] at hfiles
  exact ⟨q, os, hq, herror, hname, hgo, hxtest, hfiles⟩

/-- The test is of the package `_test`, so the package it tests has no name. -/
def sampleUnnamed : PackageRecord where
  path := "m"
  srcDir := "/m"
  files := [{ name := "a_test.go", pkgName := "_test" }, { name := "b.go", pkgName := "p" }]

/-- In one order of its files the package has no error, though its test is not of `p_test`; in the other it has. -/
theorem sampleUnnamed_incoherent :
    (ReachesFiles sampleUnnamed.view .host {} ∧ (∀ f ∈ sampleUnnamed.view.files, f.Declares) ∧
      ∃ q, resolve sampleUnnamed.view .host {} = .ok q ∧ q.error = none ∧ q.name = "p" ∧
        q.xtestGoFiles = ["a_test.go"] ∧
        ¬ ∀ g ∈ sampleUnnamed.files, g.name ∈ q.xtestGoFiles → g.pkgName = q.name ++ "_test") ∧
    ∃ q, resolve { sampleUnnamed with files := sampleUnnamed.files.reverse }.view .host {} = .ok q ∧
      q.error = some (.multiplePackages "/m" ("p", "") ("b.go", "a_test.go")) := by
  constructor
  · have hnamed : ∀ g ∈ sampleUnnamed.files, extension g.name = ".go" → g.pkgName ≠ "" := by decide
    have hsome : (resolve sampleUnnamed.view .host {}).toOption.map (fun q => (q.error, q.name, q.xtestGoFiles)) =
        some (none, "p", ["a_test.go"]) := by decide +kernel
    obtain ⟨q, hq, hfields⟩ := Fallible.toOption_map_eq_some.mp hsome
    obtain ⟨herror, hname, hxtest⟩ : q.error = none ∧ q.name = "p" ∧ q.xtestGoFiles = ["a_test.go"] := by
      simpa using hfields
    refine ⟨⟨rfl, by decide, rfl, nofun⟩, PackageRecord.view_declares hnamed, q, hq, herror, hname, hxtest, ?_⟩
    rw [hname, hxtest]
    decide
  · have hsome : (resolve { sampleUnnamed with files := sampleUnnamed.files.reverse }.view .host {}).toOption.map
        (·.error) = some (some (.multiplePackages "/m" ("p", "") ("b.go", "a_test.go"))) := by decide +kernel
    exact Fallible.toOption_map_eq_some.mp hsome

end PackageIndex
