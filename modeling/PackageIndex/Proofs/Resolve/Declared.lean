/-
  PackageIndex.Proofs.Resolve.Declared — which imports and embeds a package has, and from which files.

  - `filed_of_judges`: a file that goes to a list of sources adds all that it declares.
  - `forall₂_filed`: so the files that went to these lists, in their order, declare what is
    collected of their outcomes.
  - `tabulates_collect`: a table has the positions under each key in the order of the files and
    then of their declarations, and no key without a position.
  - `resolve_declared`: each table of a package is that of the files in its own lists.
-/

import PackageIndex.Proofs.Record.SortedMap
import PackageIndex.Proofs.Resolve.Coherence
import PackageIndex.Proofs.Resolve.Listing

namespace PackageIndex

open Fallible

variable {ctx : BuildContext} {mode : ResolveMode} {dir : String}

/-! ## Files by their lists -/

/-- The files that went to these lists, in their order; `os` is what they came to. -/
def filedIn (bs : List Listing) (fs : List FileView) (os : List Outcome) : List FileView :=
  ((fs.zip os).filter fun r => bs.any (r.2.listing = some ·)).map (·.1)

/-- What a file that went to these lists adds is what it declares, if these are lists of sources. -/
structure Filed (bs : List Listing) (f : FileView) (o : Outcome) : Prop where
  name : f.name = .ok o.name
  imports : bs ⊆ sourceListings → f.imports = .ok o.imports
  embeds : bs ⊆ sourceListings → f.embeds = .ok o.embeds

theorem declares_of_judgesSource {n n' : Naming} {f : FileView} {o o' : Outcome} {l : Listing}
    (h : JudgesSource ctx mode dir n f o o' n') (hl : o'.listing = some l) (hsource : l ∈ sourceListings) :
    f.imports = .ok o'.imports ∧ f.embeds = .ok o'.embeds := by
  cases h with
  | documentation =>
    cases hl
    exact absurd hsource (by decide)
  | @source pkg _ _ _ imports embeds hpkg hdoc hnamed hcommented himports hembeds =>
    have hlisting : listingOf ctx n o.name pkg imports = l := Option.some.inj hl
    have hbuilt : l ≠ .ignoredGo := fun h => absurd (h ▸ hsource) (by decide)
    rw [hlisting, embedsFor, if_neg hbuilt] at hembeds
    refine ⟨?_, hembeds⟩
    show f.imports = .ok (if listingOf ctx n o.name pkg imports = .ignoredGo then [] else imports)
    rw [hlisting, if_neg hbuilt]
    exact himports

theorem filed_of_judges {n n' : Naming} {f : FileView} {o : Outcome} {bs : List Listing}
    (h : Judges ctx mode dir n f o n') (hlisted : bs.any (o.listing = some ·) = true) : Filed bs f o := by
  obtain ⟨l, hl, hlisting⟩ := List.any_eq_true.mp hlisted
  have hdeclares : bs ⊆ sourceListings → f.imports = .ok o.imports ∧ f.embeds = .ok o.embeds := by
    intro hbs
    obtain ⟨known, -, hjudged⟩ := judgesSource_of_judges h (of_decide_eq_true hlisting) (hbs hl)
    exact declares_of_judgesSource hjudged (of_decide_eq_true hlisting) (hbs hl)
  exact ⟨name_of_judged h, fun hbs => (hdeclares hbs).1, fun hbs => (hdeclares hbs).2⟩

theorem forall₂_filed {n n' : Naming} {fs : List FileView} {os : List Outcome} (h : JudgesAll ctx mode dir n fs os n')
    (bs : List Listing) : List.Forall₂ (Filed bs) (filedIn bs fs os) (outcomesIn bs os) := by
  induction h with
  | nil => exact .nil
  | @cons _ _ _ f fs o os hf _ ih =>
    unfold filedIn outcomesIn at ih ⊢
    rw [List.zip_cons_cons]
    by_cases hlisted : bs.any (o.listing = some ·) = true
    · simp only [List.filter_cons, hlisted, if_true, List.map_cons]
      exact .cons (filed_of_judges hf hlisted) ih
    · simp only [List.filter_cons, hlisted, Bool.false_eq_true, if_false]
      exact ih

theorem names_filedIn {n n' : Naming} {fs : List FileView} {os : List Outcome} (h : JudgesAll ctx mode dir n fs os n')
    (bs : List Listing) : (filedIn bs fs os).mapM (·.name) = .ok ((outcomesIn bs os).map (·.name)) :=
  mapM_eq_ok.mpr (List.forall₂_map_right_iff.mpr ((forall₂_filed h bs).imp fun _ _ hfiled => hfiled.name))

/-! ## Tables -/

/-- The table has the positions that the files give for each key, file after file, and no other keys. -/
structure Tabulates (positions : String → FileView → Field (List Position)) (fs : List FileView)
    (table : Declarations) : Prop where
  values : ∀ k, (fs.mapM (positions k)).map List.flatten = .ok (table.values k)
  keys : ∀ k, k ∈ table.keys ↔ table.values k ≠ []
  ordered : (table.keys.map Utf8.ofString).Pairwise (· < ·)

def importsAt (path : String) (f : FileView) : Field (List Position) :=
  f.imports.map fun imports => (imports.filter fun i => path = i.path).map (·.position)

def embedsAt (pattern : String) (f : FileView) : Field (List Position) :=
  f.embeds.map fun embeds => (embeds.filter fun e => pattern = e.pattern).map (·.position)

theorem tabulates_collect {α : Type} {field : FileView → Field (List α)} {items : Outcome → List α}
    {key : α → String} {value : α → Position} {fs : List FileView} {os : List Outcome}
    (h : List.Forall₂ (fun f o => field f = .ok (items o)) fs os) :
    Tabulates (fun k f => (field f).map fun l => (l.filter fun a => k = key a).map value) fs
      (SortedMap.collect key value (os.flatMap items) ∅) where
  values k := by
    have hparts : fs.mapM (fun f => (field f).map fun l => (l.filter fun a => k = key a).map value) =
        .ok (os.map fun o => ((items o).filter fun a => k = key a).map value) := by
      rw [mapM_eq_ok, List.forall₂_map_right_iff]
      refine h.imp fun f o hf => ?_
      rw [hf]
      rfl
    rw [hparts, SortedMap.values_collect, List.filter_flatMap, List.map_flatMap, List.flatMap_def]
    rfl
  keys _ := SortedMap.mem_keys_collect_iff
  ordered := by
    rw [List.pairwise_map]
    exact (SortedMap.keys_pairwise _).imp fun hlt => (Utf8.ofString_lt _ _).mpr hlt

/-! ## Packages -/

/-- The imports and embeds of a package are those of the files in its lists, each table those of its own; a file
in a list of ignored ones adds none. -/
theorem resolve_declared {p : PackageView} {q : BuildPackage} (hp : ReachesFiles p ctx mode)
    (h : resolve p ctx mode = .ok q) :
    ∃ os n, judgeAll ctx mode p.srcDir {} p.files = .ok (os, n) ∧
      ((filedIn [.go] p.files os).mapM (·.name) = .ok q.goFiles ∧
        (filedIn [.cgo] p.files os).mapM (·.name) = .ok q.cgoFiles ∧
        (filedIn [.testGo] p.files os).mapM (·.name) = .ok q.testGoFiles ∧
        (filedIn [.xtestGo] p.files os).mapM (·.name) = .ok q.xtestGoFiles ∧
        (filedIn [.ignoredGo] p.files os).mapM (·.name) = .ok q.ignoredGoFiles ∧
        ∃ names, (filedIn (if q.cgoFiles = [] then [.ignoredOther, .deferred] else [.ignoredOther]) p.files os).mapM
          (·.name) = .ok names ∧ q.ignoredOtherFiles.Perm names) ∧
      Tabulates importsAt (filedIn [.go, .cgo] p.files os) q.imports ∧
      Tabulates importsAt (filedIn [.testGo] p.files os) q.testImports ∧
      Tabulates importsAt (filedIn [.xtestGo] p.files os) q.xtestImports ∧
      Tabulates embedsAt (filedIn [.go, .cgo] p.files os) q.embeds ∧
      Tabulates embedsAt (filedIn [.testGo] p.files os) q.testEmbeds ∧
      Tabulates embedsAt (filedIn [.xtestGo] p.files os) q.xtestEmbeds := by
  obtain ⟨os, n, hall, rfl⟩ := judgesAll_of_resolve hp h
  have hlist (b : Listing) : (filedIn [b] p.files os).mapM (·.name) = .ok (filesIn b os) := by
    rw [names_filedIn hall, filesIn_eq]
  have himports (bs : List Listing) (hbs : bs ⊆ sourceListings) :
      Tabulates importsAt (filedIn bs p.files os) (importsIn bs os) :=
    tabulates_collect ((forall₂_filed hall bs).imp fun _ _ hfiled => hfiled.imports hbs)
  have hembeds (bs : List Listing) (hbs : bs ⊆ sourceListings) :
      Tabulates embedsAt (filedIn bs p.files os) (embedsIn bs os) :=
    tabulates_collect ((forall₂_filed hall bs).imp fun _ _ hfiled => hfiled.embeds hbs)
  refine ⟨os, n, judgeAll_eq_ok.mpr hall, ⟨hlist _, hlist _, hlist _, hlist _, hlist _, ?_⟩, himports _ (by decide),
    himports _ (by decide), himports _ (by decide), hembeds _ (by decide), hembeds _ (by decide), hembeds _ (by decide)⟩
  by_cases hcgo : filesIn .cgo os = []
  · have hignored : (assemble ctx p os n).ignoredOtherFiles =
        sorted (filesIn .ignoredOther os ++ filesIn .deferred os) := if_pos hcgo
    refine ⟨(outcomesIn [.ignoredOther, .deferred] os).map (·.name), ?_, ?_⟩
    · rw [if_pos (show (assemble ctx p os n).cgoFiles = [] from hcgo)]
      exact names_filedIn hall _
    · rw [hignored, filesIn_eq, filesIn_eq, ← List.map_append]
      exact (sorted_perm _).trans ((outcomesIn_append_perm (by decide) os).map _)
  · refine ⟨filesIn .ignoredOther os, ?_, ?_⟩
    · rw [if_neg (show (assemble ctx p os n).cgoFiles ≠ [] from hcgo)]
      exact hlist _
    · exact List.Perm.of_eq (if_neg hcgo)

def sampleDeclaring : PackageRecord where
  path := "m"
  srcDir := "/m"
  files := [{ name := "a.go", pkgName := "m", imports := [{ path := "fmt", position := { line := 3 } },
        { path := "embed", position := { line := 4 } }, { path := "fmt", position := { line := 5 } }] },
    { name := "a.go", pkgName := "m", imports := [{ path := "fmt", position := { line := 7 } }],
      embeds := .ofList [("*.txt", [{ line := 9 }])] },
    { name := "b_test.go", pkgName := "m_test", imports := [{ path := "fmt", position := { line := 8 } }] },
    { name := "c_windows.go", pkgName := "m", imports := [{ path := "net", position := { line := 2 } }] }]

theorem sampleDeclaring_resolve_declared : ∃ q os, resolve sampleDeclaring.view .host {} = .ok q ∧
    q.goFiles = ["a.go", "a.go"] ∧ q.ignoredGoFiles = ["c_windows.go"] ∧ q.imports.keys = ["embed", "fmt"] ∧
    q.imports.values "fmt" = [{ line := 3 }, { line := 5 }, { line := 7 }] ∧
    Tabulates importsAt (filedIn [.go, .cgo] sampleDeclaring.view.files os) q.imports ∧
    Tabulates importsAt (filedIn [.xtestGo] sampleDeclaring.view.files os) q.xtestImports := by
  have hsome : (resolve sampleDeclaring.view .host {}).toOption.map
      (fun q => (q.goFiles, q.ignoredGoFiles, q.imports.keys, q.imports.values "fmt")) =
      some (["a.go", "a.go"], ["c_windows.go"], ["embed", "fmt"], [{ line := 3 }, { line := 5 }, { line := 7 }]) := by
    decide +kernel
  obtain ⟨q, hq, hfields⟩ := toOption_map_eq_some.mp hsome
  simp only [Prod.mk.injEq] at hfields
  obtain ⟨hgo, hignored, hkeys, hfmt⟩ := hfields
  have hreaches : ReachesFiles sampleDeclaring.view .host {} := ⟨rfl, by decide, rfl, nofun⟩
  obtain ⟨os, n, hrun, hlists, himports, htests, hxtests, hembeds⟩ := resolve_declared hreaches hq
  exact ⟨q, os, hq, hgo, hignored, hkeys, hfmt, himports, hxtests⟩

end PackageIndex
