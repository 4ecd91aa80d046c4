/-
  PackageIndex.Proofs.Resolve.Modes — what the switches of a mode make a difference to.

  - Asking whether a package has sources: `resolve_allowBinary`. What is found ahead of the run
    over the files is what the run would have said of them (`isBinaryOnly_of_judgesAll`), so the
    package is the same unless it says to have no sources.
  - Checking import comments: `resolve_alike`. A run with the check and one without go side by
    side; what is known of the package differs in its comment, and outcomes in their problems.
  - Vendored packages: `resolve_ignoreVendor`. Nothing reads the switch.
  - `resolve_modes` puts these together.
-/

import PackageIndex.Proofs.Resolve.Contributing
import PackageIndex.Proofs.Resolve.Naming

namespace PackageIndex

open Fallible

variable {ctx : BuildContext} {mode mode' : ResolveMode} {dir : String}

/-! ## What a file asks of the mode -/

/-- Files are judged alike in modes that check import comments alike. -/
theorem judge_congr (h : mode'.importComment = mode.importComment) (n : Naming) (f : FileView) :
    judge ctx mode' dir n f = judge ctx mode dir n f := by
  cases mode
  cases mode'
  cases h
  rfl

theorem judgeAll_congr (h : mode'.importComment = mode.importComment) (n : Naming) (fs : List FileView) :
    judgeAll ctx mode' dir n fs = judgeAll ctx mode dir n fs := by
  induction fs generalizing n with
  | nil => rfl
  | cons f fs ih =>
    unfold judgeAll
    simp only [judge_congr h, ih]

/-! ## Whether there are sources -/

theorem marked_of_record (ctx : BuildContext) (g : FileRecord) :
    g.view.marked ctx =
      if g.binaryOnly = true ∧ g.error = "" ∧ g.ignoreFile = false then (isBuilt ctx g.name g.view).map (·.1)
      else .ok false := by
  rw [FileView.marked, read_bind (r := g.view.binaryOnly) rfl]
  by_cases hbinary : g.binaryOnly = true
  · rw [if_neg (not_not.mpr hbinary), read_bind (r := g.view.error) rfl]
    by_cases herror : g.error = ""
    · rw [if_neg (not_not.mpr herror), read_bind (r := g.view.ignoreFile) rfl]
      cases hignore : g.ignoreFile with
      | true =>
        rw [if_pos rfl, if_neg fun h => Bool.false_ne_true h.2.2.symm]
        rfl
      | false =>
        rw [if_neg Bool.false_ne_true, read_bind (r := g.view.name) rfl, if_pos ⟨hbinary, herror, rfl⟩]
        rfl
    · rw [if_pos herror, if_neg fun h => herror h.2.1]
      rfl
  · rw [if_pos hbinary, if_neg fun h => hbinary h.1]
    rfl

theorem marked_of_built {g : FileRecord} {tags : List String} (herror : g.error = "") (hignore : g.ignoreFile = false)
    (hbuilt : isBuilt ctx g.name g.view = .ok (true, tags)) : g.view.marked ctx = .ok g.binaryOnly := by
  rw [marked_of_record, hbuilt]
  cases g.binaryOnly <;> simp [herror, hignore, Except.map]

/-- A file says ahead of the run what its outcome says. -/
theorem marked_of_judges {n n' : Naming} {g : FileRecord} {o : Outcome} (h : Judges ctx mode dir n g.view o n') :
    g.view.marked ctx = .ok o.binaryOnly := by
  cases h with
  | unread hname herror hne =>
    cases herror
    rw [marked_of_record, if_neg fun h => hne h.2.1]
  | ignored hname herror hparse hignore =>
    have hignored : g.ignoreFile = true := Except.ok.inj hignore
    rw [marked_of_record, hignored, if_neg fun h => Bool.false_ne_true h.2.2.symm]
  | excluded hname herror hparse hignore hbuilt =>
    cases hname
    rw [marked_of_record, hbuilt]
    split <;> rfl
  | other hname herror hparse hignore hbuilt hbinary =>
    cases hname
    cases hbinary
    exact marked_of_built (Except.ok.inj herror) (Except.ok.inj hignore) hbuilt
  | source hname herror hparse hignore hbuilt hbinary hlanguage hsource =>
    cases hname
    cases hbinary
    have hmarked := marked_of_built (Except.ok.inj herror) (Except.ok.inj hignore) hbuilt
    cases hsource <;> exact hmarked

theorem isBinaryOnly_of_judgesAll {n n' : Naming} {gs : List FileRecord} {os : List Outcome}
    (h : JudgesAll ctx mode dir n (gs.map FileRecord.view) os n') :
    isBinaryOnly ctx (gs.map FileRecord.view) = .ok (os.any (·.binaryOnly)) := by
  induction gs generalizing n os with
  | nil =>
    cases h
    rfl
  | cons g gs ih =>
    cases h with
    | @cons _ _ _ _ _ o _ hg hgs =>
      rw [List.map_cons, isBinaryOnly_cons, marked_of_judges hg, ih hgs, List.any_cons]
      cases o.binaryOnly <;> rfl

/-- What is answered where the mode also asks whether there are sources, from the answer `q` where it does not. -/
theorem resolve_allowBinary {p : PackageRecord} {q : BuildPackage} (hallow : mode.allowBinary = false)
    (h : resolve p.view ctx mode = .ok q) :
    resolve p.view ctx { mode with allowBinary := true } = .ok (if q.binaryOnly then p.view.stub ctx else q) := by
  rw [resolves_iff]
  rcases (resolve_eq_ok hallow).mp h with hearly | ⟨hearly, os, n, hall, rfl⟩
  · rw [binaryOnly_of_early hearly]
    exact .early hearly
  · have hbinary := isBinaryOnly_of_judgesAll hall
    have hrun : JudgesAll ctx { mode with allowBinary := true } p.view.srcDir {} p.view.files os n := by
      apply judgeAll_eq_ok.mp
      rw [← judgeAll_eq_ok.mpr hall]
      apply judgeAll_congr
      rfl
    have hsaid : (assemble ctx p.view os n).binaryOnly = os.any (·.binaryOnly) := rfl
    rw [hsaid]
    cases hos : os.any (·.binaryOnly) with
    | true => exact .stub hearly rfl (hbinary.trans (congrArg _ hos))
    | false => exact .judged hearly (fun _ => hbinary.trans (congrArg _ hos)) hrun

/-! ## Import comments -/

theorem Naming.uncommented_meet (n : Naming) (dir file pkg : String) :
    (n.meet dir file pkg).1.uncommented = (n.uncommented.meet dir file pkg).1 := by
  have hname : n.uncommented.name = n.name := rfl
  unfold Naming.meet
  rw [hname]
  split
  · rfl
  · split <;> rfl

section

variable {m n : Naming} (h : m.uncommented = n.uncommented)

include h

theorem testedPackage?_alike (file pkg : String) : testedPackage? m file pkg = testedPackage? n file pkg := by
  show testedPackage? m.uncommented file pkg = testedPackage? n.uncommented file pkg
  rw [h]

theorem meetSynopsis_alike (isTest : Bool) (f : FileView) :
    Alike Naming.uncommented (meetSynopsis isTest f m) (meetSynopsis isTest f n) := by
  have hdoc : m.doc = n.doc := by
    show m.uncommented.doc = n.uncommented.doc
    rw [h]
  unfold meetSynopsis
  rw [hdoc]
  refine Alike.ite (fun _ => alike_bind _ fun doc => alike_ok ?_) fun _ => alike_ok h
  show { m.uncommented with doc } = { n.uncommented with doc }
  rw [h]

theorem meetCommentOf_alike (file : String) (g : FileRecord) :
    Alike (fun r => r.1.uncommented) (meetCommentOf mode' dir file g.view m)
      (meetCommentOf mode dir file g.view n) := by
  obtain ⟨⟨m', mproblems⟩, hm⟩ := meetCommentOf_of_record mode' dir file g m
  obtain ⟨⟨n', nproblems⟩, hn⟩ := meetCommentOf_of_record mode dir file g n
  rw [hm, hn]
  apply alike_ok
  show m'.uncommented = n'.uncommented
  rw [uncommented_of_meetCommentOf hm, uncommented_of_meetCommentOf hn, h]

theorem judgeSource_alike (g : FileRecord) (o : Outcome) :
    Alike (fun r => (r.1.unreported, r.2.uncommented)) (judgeSource ctx mode' dir m g.view o)
      (judgeSource ctx mode dir n g.view o) := by
  unfold judgeSource
  refine alike_bind _ fun pkg => Alike.ite (fun _ => alike_ok (congrArg _ h)) fun _ => ?_
  have hmet : (m.meet dir o.name ((testedPackage? n o.name pkg).getD pkg)).1.uncommented =
      (n.meet dir o.name ((testedPackage? n o.name pkg).getD pkg)).1.uncommented := by
    rw [Naming.uncommented_meet, Naming.uncommented_meet, h]
  rw [testedPackage?_alike h]
  refine Alike.bind (meetSynopsis_alike hmet _ _) fun m1 n1 hsynopsis => ?_
  refine Alike.bind (meetCommentOf_alike hsynopsis _ _) fun m2 n2 hcommented => ?_
  refine alike_bind _ fun imports => alike_bind _ fun embeds => alike_ok ?_
  exact congrArg _ hcommented

theorem judge_alike (g : FileRecord) :
    Alike (fun r => (r.1.unreported, r.2.uncommented)) (judge ctx mode' dir m g.view)
      (judge ctx mode dir n g.view) := by
  unfold judge
  refine alike_bind _ fun name => alike_bind _ fun error => Alike.ite (fun _ => alike_ok (congrArg _ h)) fun _ => ?_
  refine alike_bind _ fun parseError => alike_bind _ fun ignored => ?_
  refine Alike.ite (fun _ => alike_ok (congrArg _ h)) fun _ => alike_bind _ fun built => ?_
  refine Alike.ite (fun _ => alike_ok (congrArg _ h)) fun _ => alike_bind _ fun binaryOnly => ?_
  cases Language.ofName? name with
  | none => exact alike_ok (congrArg _ h)
  | some l =>
    cases l with
    | go => exact (judgeSource_alike h g _).mapError _
    | _ => exact alike_ok (congrArg _ h)

end

theorem judgeAll_alike {m n : Naming} (h : m.uncommented = n.uncommented) (gs : List FileRecord) :
    Alike (fun r => (r.1.map Outcome.unreported, r.2.uncommented)) (judgeAll ctx mode' dir m (gs.map FileRecord.view))
      (judgeAll ctx mode dir n (gs.map FileRecord.view)) := by
  induction gs generalizing m n with
  | nil => exact alike_ok (congrArg _ h)
  | cons g gs ih =>
    refine Alike.bind (judge_alike h g) fun a b hfirst => ?_
    obtain ⟨houtcome, hnaming⟩ := Prod.mk.inj hfirst
    refine Alike.bind (ih hnaming) fun as bs hrest => alike_ok ?_
    obtain ⟨houtcomes, hend⟩ := Prod.mk.inj hrest
    show (a.1.unreported :: as.1.map Outcome.unreported, as.2.uncommented) =
      (b.1.unreported :: bs.1.map Outcome.unreported, bs.2.uncommented)
    rw [houtcome, houtcomes, hend]

def BuildPackage.uncommented (q : BuildPackage) : BuildPackage :=
  { q with importComment := "", invalidGoFiles := [], error := none }

theorem assemble_alike (p : PackageView) {os rs : List Outcome} {m n : Naming}
    (h : (rs.map Outcome.unreported, m.uncommented) = (os.map Outcome.unreported, n.uncommented)) :
    (assemble ctx p rs m).uncommented = (assemble ctx p os n).uncommented := by
  obtain ⟨houtcomes, hnaming⟩ := Prod.mk.inj h
  have hos (n : Naming) (os : List Outcome) :
      (assemble ctx p os n).uncommented = (assemble ctx p os n.uncommented).unreported := rfl
  rw [hos, hos, hnaming]
  exact (Contributes.of_map_eq houtcomes).assemble_unreported ctx p n.uncommented

/-- A package is the same whether import comments are checked, but for its comment and what is reported. -/
theorem resolve_alike (p : PackageRecord) (hfind : mode'.findOnly = mode.findOnly)
    (hallow : mode'.allowBinary = mode.allowBinary) :
    Alike BuildPackage.uncommented (resolve p.view ctx mode') (resolve p.view ctx mode) := by
  have hearly : p.view.early? ctx mode' = p.view.early? ctx mode := by
    unfold PackageView.early?
    rw [hfind]
  have hrun : Alike BuildPackage.uncommented
      ((judgeAll ctx mode' p.view.srcDir {} p.view.files).map fun r => assemble ctx p.view r.1 r.2)
      ((judgeAll ctx mode p.view.srcDir {} p.view.files).map fun r => assemble ctx p.view r.1 r.2) :=
    (judgeAll_alike rfl p.files).map fun a b => assemble_alike p.view
  cases hnone : p.view.early? ctx mode with
  | some q =>
    rw [resolve_of_early hnone, resolve_of_early (hearly.trans hnone)]
    exact alike_ok rfl
  | none =>
    rw [resolve_of_not_early hnone, resolve_of_not_early (hearly.trans hnone), hallow]
    refine Alike.ite (fun _ => ?_) fun _ => hrun
    exact alike_bind _ fun binaryOnly => Alike.ite (fun _ => alike_ok rfl) fun _ => hrun

/-! ## All switches -/

theorem resolve_ignoreVendor (p : PackageView) (vendor : Bool) :
    resolve p ctx { mode with ignoreVendor := vendor } = resolve p ctx mode := by
  have hrun : judgeAll ctx { mode with ignoreVendor := vendor } p.srcDir {} p.files =
      judgeAll ctx mode p.srcDir {} p.files := by
    apply judgeAll_congr
    rfl
  unfold resolve
  rw [hrun]

/-- Asking whether a package has sources changes the answer of those that have none, of which it leaves the rest out;
checking import comments changes the comment and what is reported; and vendored packages make no difference. -/
theorem resolve_modes (p : PackageRecord) (ctx : BuildContext) (mode : ResolveMode) :
    (mode.allowBinary = false → ∀ q, resolve p.view ctx mode = .ok q →
      resolve p.view ctx { mode with allowBinary := true } = .ok
        (if q.binaryOnly then
          { dir := p.srcDir
            importPath := p.path
            binaryOnly := true
            error :=
              if ctx.compiler = "gc" ∨ ctx.compiler = "gccgo" then none else some (.unknownCompiler ctx.compiler) }
        else q) ∧
      (p.error ≠ "" ∨ p.srcDir = "" → resolve p.view ctx { mode with allowBinary := true } = .ok q)) ∧
    (resolve p.view ctx { mode with importComment := true }).map BuildPackage.uncommented =
      (resolve p.view ctx { mode with importComment := false }).map BuildPackage.uncommented ∧
    ∀ vendor, resolve p.view ctx { mode with ignoreVendor := vendor } = resolve p.view ctx mode := by
  refine ⟨?_, resolve_alike p rfl rfl, resolve_ignoreVendor p.view⟩
  intro hallow q hq
  have hasked := resolve_allowBinary hallow hq
  unfold PackageView.stub at hasked
  rw [compilerProblem_eq] at hasked
  refine ⟨hasked, ?_⟩
  intro hstops
  have hsources : q.binaryOnly = false := by
    -- such a package is answered before it is asked about its sources
    cases hearly : p.view.early? ctx mode with
    | some answer =>
      rw [resolve_of_early hearly] at hq
      cases hq
      exact binaryOnly_of_early hearly
    | none =>
      obtain ⟨herror, hdir, -⟩ := PackageView.early?_eq_none_iff.mp hearly
      rcases hstops with hstops | hstops
      · exact absurd herror hstops
      · exact absurd hstops hdir
  rw [hasked, hsources]
  rfl

def sampleMarked : PackageRecord where
  path := "m"
  srcDir := "/m"
  files := [{ name := "a.go", pkgName := "m", binaryOnly := true, importComment := "\"m\"", importCommentLine := 1 },
    { name := "b.go", pkgName := "m", importComment := "\"n\"", importCommentLine := 1 }]

theorem sampleMarked_resolve_modes : ∃ q, resolve sampleMarked.view .host { importComment := true } = .ok q ∧
    q.binaryOnly = true ∧ q.goFiles = ["a.go", "b.go"] ∧ q.invalidGoFiles = ["b.go"] ∧
    resolve sampleMarked.view .host { allowBinary := true, importComment := true } =
      .ok { dir := "/m", importPath := "m", binaryOnly := true } := by
  have hsome : (resolve sampleMarked.view .host { importComment := true }).toOption.map
      (fun q => (q.binaryOnly, q.goFiles, q.invalidGoFiles)) = some (true, ["a.go", "b.go"], ["b.go"]) := by
    decide +kernel
  obtain ⟨q, hq, hfields⟩ := Fallible.toOption_map_eq_some.mp hsome
  obtain ⟨hbinary, hgo, hinvalid⟩ : q.binaryOnly = true ∧ q.goFiles = ["a.go", "b.go"] ∧
      q.invalidGoFiles = ["b.go"] := by simpa using hfields
  obtain ⟨hasked, -⟩ := (resolve_modes sampleMarked .host { importComment := true }).1 rfl q hq
  rw [hbinary] at hasked
  exact ⟨q, hq, hbinary, hgo, hinvalid, hasked⟩

end PackageIndex
