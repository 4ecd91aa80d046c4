/-
  PackageIndex.Proofs.Resolve.Order — what of an answer does not hang on the order of the files.

  What is known of the package when a file is judged names the package, documents it and finds
  problems; of the file itself it only says whether a test is one from outside. The rest of an
  outcome is its `orderFree` part.
  - `judges_anywhere`: a file comes to the same order-free part wherever it is judged.
  - `judgesAll_perm`: so do the files of a package, in whatever order they stand.
  - `resolve_perm`: the package is the same up to the order within its lists.
-/

import PackageIndex.Proofs.Context.Asking
import PackageIndex.Proofs.Record.SortedMap
import PackageIndex.Proofs.Resolve.Listing
import PackageIndex.Proofs.Resolve.Naming

namespace PackageIndex

variable {ctx : BuildContext} {mode : ResolveMode} {dir : String}

/-! ## One file -/

/-- Tests from outside are listed with the others. -/
def Listing.mergeTests : Listing → Listing
  | .xtestGo => .testGo
  | l => l

def Outcome.orderFree (o : Outcome) : Outcome := { o with problems := [], listing := o.listing.map Listing.mergeTests }

/-- What is known of the package only tells tests from outside from the others. -/
theorem mergeTests_listingOf (m n : Naming) (file pkg : String) (imports : List Import) :
    (listingOf ctx m file pkg imports).mergeTests = (listingOf ctx n file pkg imports).mergeTests := by
  unfold listingOf
  by_cases htest : isTestName file = true
  · have hcgo : usesCgo file imports = false := by rw [usesCgo, htest]; rfl
    unfold sourceListing
    rw [hcgo, htest]
    cases (testedPackage? m file pkg).isSome <;> cases (testedPackage? n file pkg).isSome <;> rfl
  · have hnone (k : Naming) : testedPackage? k file pkg = none := by
      unfold testedPackage?
      simp [htest]
    rw [hnone m, hnone n]

theorem judgesSource_anywhere {n n' : Naming} {g : FileRecord} {o o' : Outcome}
    (h : JudgesSource ctx mode dir n g.view o o' n') (m : Naming) :
    ∃ r m', JudgesSource ctx mode dir m g.view o r m' ∧ r.orderFree = o'.orderFree := by
  cases h with
  | documentation hpkg => exact ⟨_, m, .documentation hpkg, rfl⟩
  | @source pkg _ _ _ imports embeds hpkg hdoc hnamed hcommented himports hembeds =>
    obtain ⟨named, hnamed'⟩ := meetSynopsis_of_record (isTestName o.name) g
      (m.meet dir o.name ((testedPackage? m o.name pkg).getD pkg)).1
    obtain ⟨⟨m', commented⟩, hcommented'⟩ := meetCommentOf_of_record mode dir o.name g named
    have hmerged : (listingOf ctx m o.name pkg imports).mergeTests = (listingOf ctx n o.name pkg imports).mergeTests :=
      mergeTests_listingOf m n o.name pkg imports
    have hignored :
        listingOf ctx m o.name pkg imports = .ignoredGo ↔ listingOf ctx n o.name pkg imports = .ignoredGo := by
      revert hmerged
      cases listingOf ctx m o.name pkg imports <;> cases listingOf ctx n o.name pkg imports <;> decide
    have hembeds' : embedsFor (listingOf ctx m o.name pkg imports) g.view = .ok embeds := by
      unfold embedsFor at hembeds ⊢
      rw [if_congr hignored rfl rfl]
      exact hembeds
    refine ⟨_, m', .source hpkg hdoc hnamed' hcommented' himports hembeds', ?_⟩
    simp only [Outcome.orderFree, Option.map_some, hmerged, hignored]

/-- A record in memory comes to the same wherever it stands among the files, up to its problems. -/
theorem judges_anywhere {n n' : Naming} {g : FileRecord} {o : Outcome} (h : Judges ctx mode dir n g.view o n')
    (m : Naming) : ∃ r m', Judges ctx mode dir m g.view r m' ∧ r.orderFree = o.orderFree := by
  cases h with
  | unread hname herror hne => exact ⟨_, m, .unread hname herror hne, rfl⟩
  | ignored hname herror hparse hignore => exact ⟨_, m, .ignored hname herror hparse hignore, rfl⟩
  | excluded hname herror hparse hignore hbuilt => exact ⟨_, m, .excluded hname herror hparse hignore hbuilt, rfl⟩
  | other hname herror hparse hignore hbuilt hbinary hlanguage =>
    exact ⟨_, m, .other hname herror hparse hignore hbuilt hbinary hlanguage, rfl⟩
  | source hname herror hparse hignore hbuilt hbinary hlanguage hsource =>
    obtain ⟨r, m', hsource', hfree⟩ := judgesSource_anywhere hsource m
    exact ⟨r, m', .source hname herror hparse hignore hbuilt hbinary hlanguage hsource', hfree⟩

/-! ## All files -/

/-- The files came to the same, in whatever order. -/
def SameOutcomes (os rs : List Outcome) : Prop := (rs.map Outcome.orderFree).Perm (os.map Outcome.orderFree)

theorem judgesAll_anywhere {gs : List FileRecord} {n n' : Naming} {os : List Outcome}
    (h : JudgesAll ctx mode dir n (gs.map FileRecord.view) os n') (m : Naming) :
    ∃ rs m', JudgesAll ctx mode dir m (gs.map FileRecord.view) rs m' ∧
      rs.map Outcome.orderFree = os.map Outcome.orderFree := by
  induction gs generalizing n os m with
  | nil =>
    cases h
    exact ⟨[], m, .nil m, rfl⟩
  | cons g gs ih =>
    cases h with
    | cons hg hgs =>
      obtain ⟨r, m1, hr, hfree⟩ := judges_anywhere hg m
      obtain ⟨rs, m', hrs, hrest⟩ := ih hgs m1
      refine ⟨r :: rs, m', .cons hr hrs, ?_⟩
      rw [List.map_cons, List.map_cons, hfree, hrest]

/-- The files can be judged in any order if they can in one. -/
theorem judgesAll_perm {gs gs' : List FileRecord} (hperm : gs.Perm gs') {n n' : Naming} {os : List Outcome}
    (h : JudgesAll ctx mode dir n (gs.map FileRecord.view) os n') (m : Naming) :
    ∃ rs m', JudgesAll ctx mode dir m (gs'.map FileRecord.view) rs m' ∧ SameOutcomes os rs := by
  unfold SameOutcomes
  induction hperm generalizing n n' os m with
  | nil =>
    cases h
    exact ⟨[], m, .nil m, .nil⟩
  | cons g _ ih =>
    cases h with
    | cons hg hgs =>
      obtain ⟨r, m1, hr, hfree⟩ := judges_anywhere hg m
      obtain ⟨rs, m', hrs, hrest⟩ := ih hgs m1
      refine ⟨r :: rs, m', .cons hr hrs, ?_⟩
      rw [List.map_cons, List.map_cons, hfree]
      exact hrest.cons _
  | swap g f gs =>
    cases h with
    | cons hf h =>
      cases h with
      | cons hg hgs =>
        -- all files from here on find other names known than before, so each is judged anew
        obtain ⟨r, m1, hr, hrfree⟩ := judges_anywhere hg m
        obtain ⟨s, m2, hs, hsfree⟩ := judges_anywhere hf m1
        obtain ⟨rs, m', hrs, hrest⟩ := judgesAll_anywhere hgs m2
        refine ⟨r :: s :: rs, m', .cons hr (.cons hs hrs), ?_⟩
        simp only [List.map_cons, hrfree, hsfree, hrest]
        exact .swap _ _ _
  | trans _ _ ih1 ih2 =>
    obtain ⟨rs, m1, hrs, hfirst⟩ := ih1 h m
    obtain ⟨ts, m2, hts, hsecond⟩ := ih2 hrs m
    exact ⟨ts, m2, hts, hsecond.trans hfirst⟩

/-! ## What is collected of them -/

variable {os rs : List Outcome}

theorem SameOutcomes.flatMap {α : Type} {g : Outcome → List α} (h : SameOutcomes os rs)
    (hg : ∀ o, g o.orderFree = g o) : (rs.flatMap g).Perm (os.flatMap g) := by
  have hmap (l : List Outcome) : (l.map Outcome.orderFree).flatMap g = l.flatMap g := by
    rw [List.flatMap_map]
    exact List.flatMap_congr fun o _ => hg o
  rw [← hmap rs, ← hmap os]
  exact h.flatMap_right g

theorem SameOutcomes.names (h : SameOutcomes os rs) : (rs.map (·.name)).Perm (os.map (·.name)) := by
  have hmap := List.Perm.map Outcome.name h
  rw [List.map_map, List.map_map] at hmap
  exact hmap

theorem Listing.mergeTests_mem {bs : List Listing} (hbs : .testGo ∈ bs ↔ .xtestGo ∈ bs) (l : Listing) :
    l.mergeTests ∈ bs ↔ l ∈ bs := by
  cases l with
  | xtestGo => exact hbs
  | _ => rfl

theorem any_listing_orderFree {bs : List Listing} (hbs : .testGo ∈ bs ↔ .xtestGo ∈ bs) (o : Outcome) :
    bs.any (o.orderFree.listing = some ·) = bs.any (o.listing = some ·) := by
  unfold Outcome.orderFree
  cases o.listing with
  | none => rfl
  | some l =>
    rw [Bool.eq_iff_iff, List.any_eq_true, List.any_eq_true]
    simp [Listing.mergeTests_mem hbs l]

/-- Lists that hold both kinds of tests or neither are those of the same files. -/
theorem SameOutcomes.inLists (h : SameOutcomes os rs) {bs : List Listing} (hbs : .testGo ∈ bs ↔ .xtestGo ∈ bs) :
    SameOutcomes (outcomesIn bs os) (outcomesIn bs rs) := by
  have hlisted (l : List Outcome) : outcomesIn bs (l.map Outcome.orderFree) =
      (outcomesIn bs l).map Outcome.orderFree := by
    unfold outcomesIn
    rw [List.filter_map]
    exact congrArg _ (List.filter_congr fun o _ => any_listing_orderFree hbs o)
  unfold SameOutcomes
  rw [← hlisted os, ← hlisted rs]
  exact List.Perm.filter _ h

theorem SameOutcomes.listed (h : SameOutcomes os rs) {b : Listing} (hb : .testGo ∈ [b] ↔ .xtestGo ∈ [b]) :
    (filesIn b rs).Perm (filesIn b os) := by
  rw [filesIn_eq, filesIn_eq]
  exact (h.inLists hb).names

/-! ## Packages -/

def Cgo.Flags.lists (f : Cgo.Flags) : List (List String) :=
  [f.cflags, f.cppflags, f.cxxflags, f.fflags, f.ldflags, f.pkgConfig]

namespace BuildPackage

def plainLists (q : BuildPackage) : List (List String) :=
  [q.goFiles, q.cgoFiles, q.ignoredGoFiles, q.ignoredOtherFiles, q.cFiles, q.cxxFiles, q.mFiles, q.hFiles, q.fFiles,
   q.sFiles, q.swigFiles, q.swigCxxFiles, q.sysoFiles]

/-- What two packages have in common that were put together from the same files. Which of the tests are from outside
is not said, since that hangs on the name met first. -/
structure SameUpToOrder (q r : BuildPackage) : Prop where
  allTags : r.allTags = q.allTags
  binaryOnly : r.binaryOnly = q.binaryOnly
  hasSources : r.hasSources = q.hasSources
  plain : List.Forall₂ List.Perm r.plainLists q.plainLists
  tests : (r.testGoFiles ++ r.xtestGoFiles).Perm (q.testGoFiles ++ q.xtestGoFiles)
  flags : List.Forall₂ List.Perm r.cgo.lists q.cgo.lists
  importKeys : r.imports.keys = q.imports.keys
  imports : ∀ path, (r.imports.values path).Perm (q.imports.values path)
  testImports : ∀ path, (r.testImports.values path ++ r.xtestImports.values path).Perm
    (q.testImports.values path ++ q.xtestImports.values path)
  embedKeys : r.embeds.keys = q.embeds.keys
  embeds : ∀ pattern, (r.embeds.values pattern).Perm (q.embeds.values pattern)
  testEmbeds : ∀ pattern, (r.testEmbeds.values pattern ++ r.xtestEmbeds.values pattern).Perm
    (q.testEmbeds.values pattern ++ q.xtestEmbeds.values pattern)

theorem SameUpToOrder.refl (q : BuildPackage) : q.SameUpToOrder q where
  allTags := rfl
  binaryOnly := rfl
  hasSources := rfl
  plain := List.forall₂_same.mpr fun _ _ => .refl _
  tests := .refl _
  flags := List.forall₂_same.mpr fun _ _ => .refl _
  importKeys := rfl
  imports _ := .refl _
  testImports _ := .refl _
  embedKeys := rfl
  embeds _ := .refl _
  testEmbeds _ := .refl _

end BuildPackage

theorem SameOutcomes.tags (h : SameOutcomes os rs) :
    BuildContext.distinctTags (rs.flatMap (·.tags)) = BuildContext.distinctTags (os.flatMap (·.tags)) :=
  BuildContext.distinctTags_congr fun _ => (h.flatMap fun _ => rfl).mem_iff

theorem SameOutcomes.binaryOnly (h : SameOutcomes os rs) : rs.any (·.binaryOnly) = os.any (·.binaryOnly) := by
  have hany := List.Perm.any_eq (f := Outcome.binaryOnly) h
  rw [List.any_map, List.any_map] at hany
  exact hany

theorem SameOutcomes.tests (h : SameOutcomes os rs) :
    (filesIn .testGo rs ++ filesIn .xtestGo rs).Perm
      (filesIn .testGo os ++ filesIn .xtestGo os) := by
  have htests (l : List Outcome) : (filesIn .testGo l ++ filesIn .xtestGo l).Perm
      ((outcomesIn [.testGo, .xtestGo] l).map (·.name)) := by
    rw [filesIn_eq, filesIn_eq, ← List.map_append]
    exact (outcomesIn_append_perm (by decide) l).map _
  exact (htests rs).trans ((h.inLists (by decide)).names.trans (htests os).symm)

theorem flags_foldl {list : Cgo.Flags → List String} (hlist : ∀ f g, list (f ++ g) = list f ++ list g)
    (os : List Outcome) (f : Cgo.Flags) :
    list (os.foldl (fun flags o => flags ++ o.flags) f) = list f ++ os.flatMap fun o => list o.flags := by
  induction os generalizing f with
  | nil => exact (List.append_nil _).symm
  | cons o os ih => rw [List.foldl_cons, ih, hlist, List.flatMap_cons, List.append_assoc]

theorem SameOutcomes.flags (h : SameOutcomes os rs) {list : Cgo.Flags → List String}
    (hlist : ∀ f g, list (f ++ g) = list f ++ list g) :
    (list (rs.foldl (fun flags o => flags ++ o.flags) {})).Perm
      (list (os.foldl (fun flags o => flags ++ o.flags) {})) := by
  rw [flags_foldl hlist, flags_foldl hlist]
  exact (h.flatMap fun _ => rfl).append_left _

/-! ## Declarations -/

section Declared

variable {α : Type} {items : Outcome → List α} {key : α → String} {value : α → Position}

/-- Imports and embeds alike: what the files of these lists declare, by its key. -/
def declaredIn (items : Outcome → List α) (key : α → String) (value : α → Position) (bs : List Listing)
    (os : List Outcome) : Declarations :=
  SortedMap.collect key value ((outcomesIn bs os).flatMap items) ∅

theorem SameOutcomes.declared_keys (h : SameOutcomes os rs) (hitems : ∀ o, items o.orderFree = items o)
    {bs : List Listing} (hbs : .testGo ∈ bs ↔ .xtestGo ∈ bs) :
    (declaredIn items key value bs rs).keys = (declaredIn items key value bs os).keys :=
  SortedMap.keys_collect_perm ((h.inLists hbs).flatMap hitems)

theorem SameOutcomes.declared (h : SameOutcomes os rs) (hitems : ∀ o, items o.orderFree = items o)
    {bs : List Listing} (hbs : .testGo ∈ bs ↔ .xtestGo ∈ bs) (k : String) :
    ((declaredIn items key value bs rs).values k).Perm ((declaredIn items key value bs os).values k) :=
  SortedMap.values_collect_perm ((h.inLists hbs).flatMap hitems) k

theorem SameOutcomes.declared_tests (h : SameOutcomes os rs) (hitems : ∀ o, items o.orderFree = items o) (k : String) :
    ((declaredIn items key value [.testGo] rs).values k ++ (declaredIn items key value [.xtestGo] rs).values k).Perm
      ((declaredIn items key value [.testGo] os).values k ++ (declaredIn items key value [.xtestGo] os).values k) := by
  have htests (l : List Outcome) :
      ((declaredIn items key value [.testGo] l).values k ++ (declaredIn items key value [.xtestGo] l).values k).Perm
        ((declaredIn items key value [.testGo, .xtestGo] l).values k) := by
    unfold declaredIn
    rw [SortedMap.values_collect_append, ← List.flatMap_append]
    exact SortedMap.values_collect_perm ((outcomesIn_append_perm (by decide) l).flatMap_right items) k
  exact (htests rs).trans ((h.declared hitems (by decide) k).trans (htests os).symm)

end Declared

/-! ## The package -/

theorem SameOutcomes.plain (h : SameOutcomes os rs) (p : PackageView) (n m : Naming) :
    List.Forall₂ List.Perm (assemble ctx p rs m).plainLists (assemble ctx p os n).plainLists := by
  have hcgo : (filesIn .cgo rs).Perm (filesIn .cgo os) := h.listed (by decide)
  have hnone : filesIn .cgo rs = [] ↔ filesIn .cgo os = [] :=
    ⟨fun hrs => (hrs ▸ hcgo).nil_eq.symm, fun hos => (hos ▸ hcgo).eq_nil⟩
  have hsorted {b : Listing} (hb : .testGo ∈ [b] ↔ .xtestGo ∈ [b]) :
      (sorted (filesIn b rs ++ filesIn .deferred rs)).Perm
        (sorted (filesIn b os ++ filesIn .deferred os)) :=
    (sorted_perm _).trans (((h.listed hb).append (h.listed (by decide))).trans (sorted_perm _).symm)
  have hignored : (assemble ctx p rs m).ignoredOtherFiles.Perm (assemble ctx p os n).ignoredOtherFiles := by
    simp only [assemble, if_congr hnone rfl rfl]
    split
    · exact hsorted (by decide)
    · exact h.listed (by decide)
  have hassembly : (assemble ctx p rs m).sFiles.Perm (assemble ctx p os n).sFiles := by
    simp only [assemble, if_congr hnone rfl rfl]
    split
    · exact h.listed (by decide)
    · exact hsorted (by decide)
  simp only [BuildPackage.plainLists, List.forall₂_cons, List.forall₂_nil_left_iff, and_true]
  refine ⟨?_, hcgo, ?_, hignored, ?_, ?_, ?_, ?_, ?_, hassembly, ?_, ?_, ?_⟩ <;> exact h.listed (by decide)

theorem SameOutcomes.hasSources (h : SameOutcomes os rs) (p : PackageView) (n m : Naming) :
    (assemble ctx p rs m).hasSources = (assemble ctx p os n).hasSources := by
  have hgo : (filesIn .go rs).isEmpty = (filesIn .go os).isEmpty :=
    (h.listed (by decide)).isEmpty_eq
  have hcgo : (filesIn .cgo rs).isEmpty = (filesIn .cgo os).isEmpty :=
    (h.listed (by decide)).isEmpty_eq
  have happend (l l' : List String) : (l ++ l').isEmpty = (l.isEmpty && l'.isEmpty) := by cases l <;> rfl
  have htests := h.tests.isEmpty_eq
  rw [happend, happend] at htests
  unfold BuildPackage.hasSources
  rw [Bool.and_assoc, Bool.and_assoc (_ && _)]
  simp only [assemble, hgo, hcgo, htests]

theorem SameOutcomes.assembled (h : SameOutcomes os rs) (p : PackageView) (n m : Naming) :
    (assemble ctx p os n).SameUpToOrder (assemble ctx p rs m) where
  allTags := h.tags
  binaryOnly := h.binaryOnly
  hasSources := h.hasSources p n m
  plain := h.plain p n m
  tests := h.tests
  flags := by
    simp only [Cgo.Flags.lists, List.forall₂_cons, List.forall₂_nil_left_iff, and_true]
    exact ⟨h.flags fun _ _ => rfl, h.flags fun _ _ => rfl, h.flags fun _ _ => rfl, h.flags fun _ _ => rfl,
      h.flags fun _ _ => rfl, h.flags fun _ _ => rfl⟩
  importKeys := h.declared_keys (fun _ => rfl) (by decide)
  imports := h.declared (fun _ => rfl) (by decide)
  testImports := h.declared_tests fun _ => rfl
  embedKeys := h.declared_keys (fun _ => rfl) (by decide)
  embeds := h.declared (fun _ => rfl) (by decide)
  testEmbeds := h.declared_tests fun _ => rfl

/-- Whatever the order of its files, a package comes to the same, up to the order within its lists. -/
theorem sameUpToOrder_of_resolve {p : PackageRecord} {q : BuildPackage} {files : List FileRecord}
    (hperm : p.files.Perm files) (hmode : mode.allowBinary = false) (h : resolve p.view ctx mode = .ok q) :
    ∃ r, resolve { p with files }.view ctx mode = .ok r ∧ q.SameUpToOrder r := by
  have hearly : PackageView.early? { p with files }.view ctx mode = p.view.early? ctx mode := rfl
  rw [resolve_eq_ok hmode] at h
  rcases h with hanswered | ⟨hnone, os, n, hall, rfl⟩
  · exact ⟨q, (resolve_eq_ok hmode).mpr (Or.inl (hearly.trans hanswered)), .refl q⟩
  · obtain ⟨rs, m, hrun, hsame⟩ := judgesAll_perm hperm hall {}
    have hresolved : resolve { p with files }.view ctx mode = .ok (assemble ctx { p with files }.view rs m) :=
      (resolve_eq_ok hmode).mpr (Or.inr ⟨hearly.trans hnone, rs, m, hrun, rfl⟩)
    exact ⟨_, hresolved, hsame.assembled p.view n m⟩

/-- A package resolves in one order of its files just if it does in another, and to the same up to the order
within its lists. -/
theorem resolve_perm {p : PackageRecord} {files : List FileRecord} (hperm : p.files.Perm files)
    (hmode : mode.allowBinary = false) :
    ((∃ q, resolve p.view ctx mode = .ok q) ↔ ∃ r, resolve { p with files }.view ctx mode = .ok r) ∧
    ∀ q r, resolve p.view ctx mode = .ok q → resolve { p with files }.view ctx mode = .ok r → q.SameUpToOrder r := by
  refine ⟨⟨?_, ?_⟩, ?_⟩
  · rintro ⟨q, h⟩
    obtain ⟨r, hr, -⟩ := sameUpToOrder_of_resolve hperm hmode h
    exact ⟨r, hr⟩
  · rintro ⟨r, h⟩
    obtain ⟨q, hq, -⟩ := sameUpToOrder_of_resolve (p := { p with files }) hperm.symm hmode h
    exact ⟨q, hq⟩
  · intro q r hq hr
    obtain ⟨r', hr', hsame⟩ := sameUpToOrder_of_resolve hperm hmode hq
    rw [hr] at hr'
    cases hr'
    exact hsame

/-- The test is of the package itself if the package is known by then, and else tests another from outside. -/
def sampleReordered : PackageRecord where
  path := "m"
  srcDir := "/m"
  files := [{ name := "a_test.go", pkgName := "m_test", imports := [{ path := "fmt" }] },
    { name := "b.go", pkgName := "m_test", imports := [{ path := "C", doc := "#cgo LDFLAGS: -lm" }, { path := "fmt" }] },
    { name := "c.S" }, { name := "d.s", goBuild := "//go:build linux || windows" }]

theorem sampleReordered_resolve_perm : ∃ q r, resolve sampleReordered.view .host {} = .ok q ∧
    resolve { sampleReordered with files := sampleReordered.files.reverse }.view .host {} = .ok r ∧
    q.xtestGoFiles = ["a_test.go"] ∧ r.testGoFiles = ["a_test.go"] ∧ q.cgoFiles = ["b.go"] ∧ q.SameUpToOrder r := by
  have hfirst : (resolve sampleReordered.view .host {}).toOption.map (fun q => (q.xtestGoFiles, q.cgoFiles)) =
      some (["a_test.go"], ["b.go"]) := by decide +kernel
  have hsecond : (resolve { sampleReordered with files := sampleReordered.files.reverse }.view .host {}).toOption.map
      (·.testGoFiles) = some ["a_test.go"] := by decide +kernel
  have hreverse : sampleReordered.files.Perm sampleReordered.files.reverse := (List.reverse_perm _).symm
  obtain ⟨q, hq, hfields⟩ := Fallible.toOption_map_eq_some.mp hfirst
  obtain ⟨r, hr, htest⟩ := Fallible.toOption_map_eq_some.mp hsecond
  obtain ⟨hxtest, hcgo⟩ := Prod.mk.inj hfields
  exact ⟨q, r, hq, hr, hxtest, htest, hcgo, (resolve_perm hreverse rfl).2 q r hq hr⟩

end PackageIndex
