/-
  PackageIndex.Proofs.Resolve.Listing — where the files of a package are listed.

  - `listed_of_judges`: whether a file is listed at all is said by its name, its error and
    whether it is ignored; its constraints and what it declares only say where.
  - `resolve_lists`: the lists of a resolved package hold the names of these files, each as
    often as it has files, and in their order but for the one list that is sorted.
-/

import Mathlib.Data.List.Perm.Basic
import PackageIndex.Proofs.Resolve.Judging
import PackageIndex.Proofs.Text.Bytes

namespace PackageIndex

variable {ctx : BuildContext} {mode : ResolveMode} {dir : String}

/-- The name of a file that has a place in its package, built or not. -/
def FileView.listedName? (f : FileView) : Option String := do
  let name ← f.name.toOption
  let error ← f.error.toOption
  let ignored ← f.ignoreFile.toOption
  if error = "" ∧ (Language.ofName? name).isSome ∧ ¬ (ignored ∧ isHiddenName name) then some name else none

def Outcome.listedName? (o : Outcome) : Option String := o.listing.map fun _ => o.name

/-! ## One file -/

theorem listing_of_judgesSource {n n' : Naming} {f : FileView} {o o' : Outcome}
    (h : JudgesSource ctx mode dir n f o o' n') :
    o'.name = o.name ∧ ∃ l, o'.listing = some l ∧ l ∈ [Listing.go, .cgo, .testGo, .xtestGo, .ignoredGo] := by
  cases h with
  | documentation => exact ⟨rfl, _, rfl, by decide⟩
  | source =>
    refine ⟨rfl, _, rfl, ?_⟩
    unfold listingOf sourceListing
    split
    · split <;> decide
    · split
      · decide
      · split <;> decide

theorem FileView.listedName?_of_read {f : FileView} {name : String} {ignored : Bool} (hname : f.name = .ok name)
    (herror : f.error = .ok "") (hignore : f.ignoreFile = .ok ignored) :
    f.listedName? =
      if (Language.ofName? name).isSome ∧ ¬ (ignored ∧ isHiddenName name) then some name else none := by
  unfold FileView.listedName?
  rw [hname, herror, hignore]
  show ite ("" = "" ∧ _) _ _ = _
  simp only [true_and]

/-- A file is listed or not whatever its constraints and its contents say. -/
theorem listed_of_judges {n n' : Naming} {f : FileView} {o : Outcome} (h : Judges ctx mode dir n f o n') :
    o.listedName? = f.listedName? := by
  cases h with
  | unread hname herror hne =>
    -- the judge does not ask whether such a file is ignored, which may be beyond reading
    unfold FileView.listedName?
    rw [hname, herror]
    cases f.ignoreFile with
    | error e => rfl
    | ok i =>
      show none = ite _ _ _
      rw [if_neg fun h => hne h.1]
  | @ignored name _ hname herror hparse hignore =>
    rw [FileView.listedName?_of_read hname herror hignore]
    unfold Outcome.listedName? Listing.ignored?
    by_cases hh : isHiddenName name = true
    · simp [hh]
    · cases Language.ofName? name <;> simp [hh]
  | @excluded name _ _ hname herror hparse hignore hbuilt =>
    rw [FileView.listedName?_of_read hname herror hignore]
    unfold Outcome.listedName? Listing.ignored?
    cases Language.ofName? name <;> simp
  | @other name _ _ _ hname herror hparse hignore hbuilt hbinary hlanguage =>
    rw [FileView.listedName?_of_read hname herror hignore]
    unfold Outcome.listedName?
    cases Language.ofName? name <;> simp
  | @source name _ _ _ _ _ hname herror hparse hignore hbuilt hbinary hlanguage hsource =>
    obtain ⟨ho, l, hl, -⟩ := listing_of_judgesSource hsource
    rw [FileView.listedName?_of_read hname herror hignore]
    unfold Outcome.listedName?
    rw [hl, ho, hlanguage]
    simp

theorem Listing.ofLanguage_inj {l l' : Language} (h : ofLanguage l = ofLanguage l') : l = l' := by
  cases l <;> cases l' <;> first | rfl | cases h

theorem Listing.ignored?_ne {name : String} {l : Language} : ignored? name ≠ some (ofLanguage l) := by
  intro h
  obtain ⟨l', -, hl⟩ := Option.map_eq_some_iff.mp h
  split at hl <;> cases l <;> cases hl

/-- The list of a language other than Go holds files of this language. -/
theorem language_of_judges {n n' : Naming} {f : FileView} {o : Outcome} (h : Judges ctx mode dir n f o n')
    {l : Language} (hne : l ≠ .go) (hl : o.listing = some (Listing.ofLanguage l)) :
    Language.ofName? o.name = some l := by
  cases h with
  | unread => cases hl
  | ignored =>
    simp only at hl
    split at hl
    · cases hl
    · exact absurd hl Listing.ignored?_ne
  | excluded => exact absurd hl Listing.ignored?_ne
  | other =>
    obtain ⟨l', hname, hl'⟩ := Option.map_eq_some_iff.mp hl
    rw [← Listing.ofLanguage_inj hl']
    exact hname
  | source hname herror hparse hignore hbuilt hbinary hlanguage hsource =>
    obtain ⟨-, b, hb, hmem⟩ := listing_of_judgesSource hsource
    rw [hl] at hb
    cases hb
    cases l <;> first | exact absurd rfl hne | exact absurd hmem (by decide)

/-! ## All files -/

theorem listed_of_judgesAll {n n' : Naming} {fs : List FileView} {os : List Outcome}
    (h : JudgesAll ctx mode dir n fs os n') :
    os.filterMap Outcome.listedName? = fs.filterMap FileView.listedName? := by
  induction h with
  | nil => rfl
  | cons hf _ ih => rw [List.filterMap_cons, List.filterMap_cons, ih, listed_of_judges hf]

theorem language_of_judgesAll {n n' : Naming} {fs : List FileView} {os : List Outcome}
    (h : JudgesAll ctx mode dir n fs os n') {l : Language} (hne : l ≠ .go) :
    ∀ name ∈ filesIn (Listing.ofLanguage l) os, Language.ofName? name = some l := by
  have hall : ∀ o ∈ os, o.listing = some (Listing.ofLanguage l) → Language.ofName? o.name = some l := by
    induction h with
    | nil => exact fun _ ho => nomatch ho
    | cons hf _ ih =>
      intro o ho hl
      rcases List.mem_cons.mp ho with rfl | ho
      · exact language_of_judges hf hne hl
      · exact ih o ho hl
  intro name hmem
  obtain ⟨o, ho, rfl⟩ := List.mem_map.mp hmem
  obtain ⟨ho, hl⟩ := List.mem_filter.mp ho
  exact hall o ho (of_decide_eq_true hl)

/-! ## The lists -/

def Listing.all : List Listing :=
  [.go, .cgo, .ignoredGo, .ignoredOther, .c, .cxx, .m, .h, .f, .s, .swig, .swigCxx, .syso, .testGo, .xtestGo, .deferred]

theorem filesIn_cons (b : Listing) (o : Outcome) (os : List Outcome) :
    filesIn b (o :: os) = (if o.listing = some b then [o.name] else []) ++ filesIn b os := by
  unfold filesIn
  by_cases h : o.listing = some b
  · rw [if_pos h, List.filter_cons_of_pos (by rw [h]; exact decide_eq_true rfl)]
    rfl
  · rw [if_neg h, List.filter_cons_of_neg (by rw [decide_eq_true_eq]; exact h)]
    rfl

theorem filesIn_eq (b : Listing) (os : List Outcome) : filesIn b os = (outcomesIn [b] os).map (·.name) := by
  unfold filesIn outcomesIn
  simp only [List.any_cons, List.any_nil, Bool.or_false]

theorem outcomesIn_append_perm {b b' : Listing} (h : b ≠ b') (os : List Outcome) :
    (outcomesIn [b] os ++ outcomesIn [b'] os).Perm (outcomesIn [b, b'] os) := by
  have hsplit := List.filter_append_perm (fun o => decide (o.listing = some b)) (outcomesIn [b, b'] os)
  unfold outcomesIn at hsplit ⊢
  rw [List.filter_filter, List.filter_filter] at hsplit
  refine List.Perm.trans (List.Perm.of_eq ?_) hsplit
  congr 1
  · apply List.filter_congr
    intro o _
    by_cases hb : o.listing = some b <;> simp [hb]
  · apply List.filter_congr
    intro o _
    by_cases hb : o.listing = some b <;> simp [hb, h]

theorem flatMap_listing (o : Outcome) :
    (Listing.all.flatMap fun b => if o.listing = some b then [o.name] else []) = o.listedName?.toList := by
  unfold Outcome.listedName?
  cases o.listing with
  | none => rfl
  | some b => cases b <;> rfl

/-- The lists together hold every listed file once. -/
theorem filesIn_perm (os : List Outcome) :
    (Listing.all.flatMap fun b => filesIn b os).Perm (os.filterMap Outcome.listedName?) := by
  induction os with
  | nil => exact .nil
  | cons o os ih =>
    have hcons : (o :: os).filterMap Outcome.listedName? =
        o.listedName?.toList ++ os.filterMap Outcome.listedName? := by
      rw [List.filterMap_cons]
      cases o.listedName? <;> rfl
    simp only [filesIn_cons]
    rw [hcons, ← flatMap_listing]
    exact (List.flatMap_append_perm _ _ _).symm.trans (ih.append_left _)

/-- Each list is in the order of the files. -/
theorem filesIn_sublist (b : Listing) (os : List Outcome) :
    (filesIn b os).Sublist (os.filterMap Outcome.listedName?) := by
  induction os with
  | nil => exact .slnil
  | cons o os ih =>
    rw [filesIn_cons, List.filterMap_cons]
    unfold Outcome.listedName?
    cases hl : o.listing with
    | none =>
      rw [if_neg nofun]
      exact ih
    | some l =>
      by_cases hb : l = b
      · rw [if_pos (congrArg some hb)]
        exact ih.cons_cons _
      · rw [if_neg fun h => hb (Option.some.inj h)]
        exact ih.cons _

/-! ## The lists of a resolved package -/

namespace BuildPackage

def files (q : BuildPackage) : List String :=
  q.goFiles ++ q.cgoFiles ++ q.ignoredGoFiles ++ q.ignoredOtherFiles ++ q.cFiles ++ q.cxxFiles ++ q.mFiles ++
    q.hFiles ++ q.fFiles ++ q.sFiles ++ q.swigFiles ++ q.swigCxxFiles ++ q.sysoFiles ++ q.testGoFiles ++ q.xtestGoFiles

/-- The list that takes in the assembly for the preprocessor. -/
def sortedList (q : BuildPackage) : List String := if q.cgoFiles = [] then q.ignoredOtherFiles else q.sFiles

def orderedLists (q : BuildPackage) : List (List String) :=
  [q.goFiles, q.cgoFiles, q.ignoredGoFiles, if q.cgoFiles = [] then q.sFiles else q.ignoredOtherFiles, q.cFiles,
   q.cxxFiles, q.mFiles, q.hFiles, q.fFiles, q.swigFiles, q.swigCxxFiles, q.sysoFiles, q.testGoFiles, q.xtestGoFiles]

end BuildPackage

theorem sorted_perm (l : List String) : (sorted l).Perm l := List.mergeSort_perm l _

theorem assemble_files_perm (p : PackageView) (os : List Outcome) (n : Naming) :
    (assemble ctx p os n).files.Perm (os.filterMap Outcome.listedName?) := by
  refine List.Perm.trans ?_ (filesIn_perm os)
  -- the lists stand in another order than in `Listing.all`, so occurrences are counted
  rw [List.perm_iff_count]
  intro name
  by_cases hcgo : filesIn .cgo os = []
  · simp only [BuildPackage.files, assemble, hcgo, if_true, Listing.all, List.flatMap_cons, List.flatMap_nil,
      List.count_append, List.count_nil, (sorted_perm _).count_eq]
    omega
  · simp only [BuildPackage.files, assemble, hcgo, if_false, Listing.all, List.flatMap_cons, List.flatMap_nil,
      List.count_append, List.count_nil, (sorted_perm _).count_eq]
    omega

theorem assemble_orderedLists (p : PackageView) (os : List Outcome) (n : Naming) :
    ∀ l ∈ (assemble ctx p os n).orderedLists, ∃ b, l = filesIn b os := by
  intro l hl
  simp only [BuildPackage.orderedLists, assemble, List.mem_cons, List.not_mem_nil, or_false] at hl
  rcases hl with rfl | rfl | rfl | rfl | rfl | rfl | rfl | rfl | rfl | rfl | rfl | rfl | rfl | rfl
  · exact ⟨.go, rfl⟩
  · exact ⟨.cgo, rfl⟩
  · exact ⟨.ignoredGo, rfl⟩
  · by_cases hcgo : filesIn .cgo os = []
    · exact ⟨.s, by simp only [hcgo, if_true]⟩
    · exact ⟨.ignoredOther, by simp only [hcgo, if_false]⟩
  · exact ⟨.c, rfl⟩
  · exact ⟨.cxx, rfl⟩
  · exact ⟨.m, rfl⟩
  · exact ⟨.h, rfl⟩
  · exact ⟨.f, rfl⟩
  · exact ⟨.swig, rfl⟩
  · exact ⟨.swigCxx, rfl⟩
  · exact ⟨.syso, rfl⟩
  · exact ⟨.testGo, rfl⟩
  · exact ⟨.xtestGo, rfl⟩

theorem assemble_sortedList (ctx : BuildContext) (p : PackageView) (os : List Outcome) (n : Naming) :
    ∃ b, (assemble ctx p os n).sortedList = sorted (filesIn b os ++ filesIn .deferred os) := by
  unfold BuildPackage.sortedList
  by_cases hcgo : filesIn .cgo os = []
  · refine ⟨.ignoredOther, ?_⟩
    simp only [assemble, hcgo, if_true]
  · refine ⟨.s, ?_⟩
    simp only [assemble, hcgo, if_false]

theorem extension_of_language {name : String} {l : Language} (h : Language.ofName? name = some l) {ending : String}
    (he : Language.extensions.lookup ending ≠ some l) : extension name ≠ ending := by
  rintro rfl
  exact he h

/-- The lists of a package that is resolved down to its files hold the name of every file that has a place in
it, each in the order of the files. Only the list that takes in the assembly for the preprocessor is sorted. -/
theorem resolve_lists {p : PackageView} {q : BuildPackage} (hp : ReachesFiles p ctx mode)
    (h : resolve p ctx mode = .ok q) :
    q.files.Perm (p.files.filterMap FileView.listedName?) ∧
    (∀ l ∈ q.orderedLists, l.Sublist (p.files.filterMap FileView.listedName?)) ∧
    (q.sortedList.map Utf8.ofString).Pairwise (· ≤ ·) ∧
    (∃ kept deferred, q.sortedList.Perm (kept ++ deferred) ∧ kept.Sublist (p.files.filterMap FileView.listedName?) ∧
      deferred.Sublist (p.files.filterMap FileView.listedName?) ∧
      ∀ name ∈ deferred, Language.ofName? name = some .preprocessed) ∧
    (q.cgoFiles = [] → ∀ name ∈ q.sFiles, extension name ≠ ".S" ∧ extension name ≠ ".sx") := by
  obtain ⟨os, n, hall, rfl⟩ := judgesAll_of_resolve hp h
  have hlisted := listed_of_judgesAll hall
  obtain ⟨b, hsorted⟩ := assemble_sortedList ctx p os n
  rw [← hlisted]
  refine ⟨assemble_files_perm p os n, ?_, ?_, ?_, ?_⟩
  · intro l hl
    obtain ⟨b, rfl⟩ := assemble_orderedLists p os n l hl
    exact filesIn_sublist b os
  · rw [hsorted, List.pairwise_map]
    exact (Utf8.pairwise_mergeSort_key id _).imp fun hle => (Utf8.ofString_le _ _).mpr hle
  · refine ⟨filesIn b os, filesIn .deferred os, ?_, filesIn_sublist _ _, filesIn_sublist _ _, ?_⟩
    · rw [hsorted]
      exact sorted_perm _
    · exact language_of_judgesAll hall (l := .preprocessed) nofun
  · intro hcgo name hname
    have hs : (assemble ctx p os n).sFiles = filesIn .s os := if_pos hcgo
    rw [hs] at hname
    have hl := language_of_judgesAll hall (l := .assembly) nofun name hname
    exact ⟨extension_of_language hl (by decide), extension_of_language hl (by decide)⟩

def sampleFiles : PackageRecord where
  path := "m"
  srcDir := "/m"
  files := [{ name := "a.go", pkgName := "m" }, { name := "b.S" }, { name := "_c.go", ignoreFile := true },
    { name := "d_windows.c" }, { name := "e.txt" }]

theorem sampleFiles_lists : ∃ q, resolve sampleFiles.view .host {} = .ok q ∧
    q.files.Perm ["a.go", "b.S", "d_windows.c"] ∧ (q.cgoFiles = [] → ∀ name ∈ q.sFiles, extension name ≠ ".S") := by
  have hok : (resolve sampleFiles.view .host {}).isOk = true := by decide +kernel
  cases hq : resolve sampleFiles.view .host {} with
  | error e => rw [hq] at hok; cases hok
  | ok q =>
    have hreaches : ReachesFiles sampleFiles.view .host {} := ⟨rfl, by decide, rfl, nofun⟩
    have hnames : sampleFiles.view.files.filterMap FileView.listedName? = ["a.go", "b.S", "d_windows.c"] := by
      decide +kernel
    obtain ⟨hperm, -, -, -, hassembly⟩ := resolve_lists hreaches hq
    exact ⟨q, rfl, hnames ▸ hperm, fun hcgo name hname => (hassembly hcgo name hname).1⟩

end PackageIndex
