/-
  PackageIndex.Proofs.Resolve.Regrouping — in which order the embeds of a file are listed.

  A build package has the embeds of its files by pattern. So it does not show whether the
  files list theirs as they were found or in the order of their patterns, as a record does
  that keeps them by pattern.
  - `judge_regrouped`: judging a file of regrouped embeds adds what judging it adds, with
    the embeds regrouped; nothing else of the outcome hangs on them.
  - `resolve_regrouped`: so a package resolves to the same, also where fields of it cannot
    be read.
  - `resolve_of_read`: and to the same as the record that is read of it.
-/

import PackageIndex.Proofs.Fallible
import PackageIndex.Proofs.Record.Embeds
import PackageIndex.Proofs.Record.Reading
import PackageIndex.Resolve.Assembly

namespace PackageIndex

open Fallible

def FileView.regrouped (f : FileView) : FileView := { f with embeds := f.embeds.map PackageIndex.regrouped }

def PackageView.regrouped (p : PackageView) : PackageView := { p with files := p.files.map FileView.regrouped }

def Outcome.regrouped (o : Outcome) : Outcome := { o with embeds := PackageIndex.regrouped o.embeds }

variable {ctx : BuildContext} {mode : ResolveMode} {dir : String}

abbrev regroupedOutcome (r : Outcome × Naming) : Outcome × Naming := (r.1.regrouped, r.2)

/-! ## One file -/

theorem embedsFor_regrouped (listing : Listing) (f : FileView) :
    Maps PackageIndex.regrouped (embedsFor listing f) (embedsFor listing f.regrouped) :=
  Maps.ite (fun _ => maps_ok _ _) fun _ => rfl

theorem judgeSource_regrouped (n : Naming) (f : FileView) (o : Outcome) :
    Maps regroupedOutcome (judgeSource ctx mode dir n f o) (judgeSource ctx mode dir n f.regrouped o.regrouped) := by
  unfold judgeSource
  refine maps_bind f.pkgName fun pkg => ?_
  refine Maps.ite (fun _ => maps_ok _ _) fun _ => ?_
  refine maps_bind (meetSynopsis _ f _) fun named => ?_
  refine maps_bind (meetCommentOf mode dir o.name f _) fun commented => ?_
  refine maps_bind f.imports fun imports => ?_
  exact (embedsFor_regrouped _ f).bind fun embeds => maps_ok _ _

theorem judge_regrouped (n : Naming) (f : FileView) :
    Maps regroupedOutcome (judge ctx mode dir n f) (judge ctx mode dir n f.regrouped) := by
  unfold judge
  refine maps_bind (f.name.mapError _) fun name => ?_
  refine maps_bind (f.error.mapError _) fun error => ?_
  refine Maps.ite (fun _ => maps_ok _ _) fun _ => ?_
  refine maps_bind (f.parseError.mapError _) fun parseError => ?_
  refine maps_bind (f.ignoreFile.mapError _) fun ignoreFile => ?_
  refine Maps.ite (fun _ => maps_ok _ _) fun _ => ?_
  refine maps_bind (isBuilt ctx name f) fun (built, tags) => ?_
  refine Maps.ite (fun _ => maps_ok _ _) fun _ => ?_
  refine maps_bind (f.binaryOnly.mapError _) fun binaryOnly => ?_
  cases Language.ofName? name with
  | none => exact maps_ok _ _
  | some l =>
    cases l with
    | go => exact (judgeSource_regrouped n f _).mapError _
    | _ => exact maps_ok _ _

/-! ## The whole -/

theorem judgeAll_regrouped (n : Naming) (fs : List FileView) :
    Maps (fun r => (r.1.map Outcome.regrouped, r.2)) (judgeAll ctx mode dir n fs)
      (judgeAll ctx mode dir n (fs.map FileView.regrouped)) := by
  induction fs generalizing n with
  | nil => exact maps_ok _ _
  | cons f fs ih => exact (judge_regrouped n f).bind fun r => (ih r.2).bind fun _ => maps_ok _ _

theorem isBinaryOnly_regrouped (fs : List FileView) :
    isBinaryOnly ctx (fs.map FileView.regrouped) = isBinaryOnly ctx fs := by
  induction fs with
  | nil => rfl
  | cons f fs ih =>
    rw [List.map_cons, isBinaryOnly, isBinaryOnly, ih]
    rfl

/-- The embeds are put together by pattern, so it does not matter that those of each file are. -/
theorem embedsIn_regrouped (bs : List Listing) (os : List Outcome) :
    embedsIn bs (os.map Outcome.regrouped) = embedsIn bs os := by
  have hembeds : (outcomesIn bs (os.map Outcome.regrouped)).flatMap (·.embeds) =
      ((outcomesIn bs os).map (·.embeds)).flatMap PackageIndex.regrouped := by
    unfold outcomesIn
    rw [List.filter_map, List.flatMap_map, List.flatMap_map]
    rfl
  unfold embedsIn
  rw [hembeds, embedsByPattern_regrouped, List.flatMap_def]

theorem assemble_regrouped (p : PackageView) (os : List Outcome) (n : Naming) :
    assemble ctx p.regrouped (os.map Outcome.regrouped) n = assemble ctx p os n := by
  have hfiles (b : Listing) : filesIn b (os.map Outcome.regrouped) = filesIn b os := by
    unfold filesIn
    rw [List.filter_map, List.map_map]
    rfl
  have himports (bs : List Listing) : importsIn bs (os.map Outcome.regrouped) = importsIn bs os := by
    unfold importsIn outcomesIn
    rw [List.filter_map, List.flatMap_map]
    rfl
  have hproblems : problemFiles (os.map Outcome.regrouped) = problemFiles os := by
    unfold problemFiles
    rw [List.filter_map, List.map_map]
    rfl
  unfold assemble
  simp only [hfiles, himports, hproblems, embedsIn_regrouped, List.any_map, List.flatMap_map, List.foldl_map]
  rfl

/-- A package resolves to the same, and fails for the same, if the embeds of its files are regrouped. -/
theorem resolve_regrouped (p : PackageView) (ctx : BuildContext) (mode : ResolveMode) :
    resolve p.regrouped ctx mode = resolve p ctx mode := by
  have hjudged : Maps id (judgeAll ctx mode p.srcDir {} p.files >>= fun r => .ok (assemble ctx p r.1 r.2))
      (judgeAll ctx mode p.srcDir {} p.regrouped.files >>= fun r => .ok (assemble ctx p.regrouped r.1 r.2)) :=
    (judgeAll_regrouped {} p.files).bind fun r => congrArg Except.ok (assemble_regrouped p r.1 r.2)
  have hbinary : isBinaryOnly ctx p.regrouped.files = isBinaryOnly ctx p.files := isBinaryOnly_regrouped p.files
  apply eq_of_maps_id
  unfold resolve
  rw [hbinary]
  refine Maps.ite (fun _ => maps_ok _ _) fun _ => ?_
  refine Maps.ite (fun _ => maps_ok _ _) fun _ => ?_
  refine Maps.ite (fun _ => maps_ok _ _) fun _ => ?_
  refine Maps.ite (fun _ => ?_) fun _ => hjudged
  refine maps_bind (isBinaryOnly ctx p.files) fun binaryOnly => ?_
  exact Maps.ite (fun _ => maps_ok _ _) fun _ => hjudged

/-! ## Records that were read -/

theorem FileView.ReadsAs.view_eq {f : FileView} {r : FileRecord} (h : f.ReadsAs r) : r.view = f.regrouped := by
  obtain ⟨l, hembeds, hgrouped⟩ := h.embeds
  have hflat : r.flatEmbeds = PackageIndex.regrouped l := by
    unfold FileRecord.flatEmbeds
    rw [hgrouped]
    rfl
  unfold FileRecord.view FileView.regrouped
  rw [h.name, h.synopsis, h.pkgName, h.ignoreFile, h.binaryOnly, h.goBuild, h.plusBuild, h.importComment,
    h.importCommentLine, h.imports, h.error, h.parseError, hembeds, hflat]
  rfl

/-- The record that is read of a package resolves to what the package does. -/
theorem resolve_of_read {p : PackageView} {r : PackageRecord} (h : p.read = .ok r) (ctx : BuildContext)
    (mode : ResolveMode) : resolve r.view ctx mode = resolve p ctx mode := by
  obtain ⟨hfiles, herror, hpath, hsrcDir, hdir⟩ := PackageView.read_eq_ok.mp h
  have hviews : r.files.map FileRecord.view = p.files.map FileView.regrouped := by
    rw [← List.forall₂_eq_eq_eq, List.forall₂_map_left_iff, List.forall₂_map_right_iff]
    exact hfiles.flip.imp fun _ _ hf => FileView.ReadsAs.view_eq hf
  have hview : r.view = p.regrouped := by
    unfold PackageRecord.view PackageView.regrouped
    rw [hviews, herror, hpath, hsrcDir, hdir]
  rw [hview, resolve_regrouped]

end PackageIndex
