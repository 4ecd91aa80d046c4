/-
  PackageIndex.Proofs.Resolve.Concurring — a record that can only be read in part.

  `f` concurs with `g` where every field of `f` that can be read is what `g` has there.
  - `FileView.Concurs.read`: so does the record that is read of it.
  - `concurs_resolve`: a package of such files resolves to what it would resolve to, or
    fails because of a field; never to anything else.
  - `resolve_record`: where all fields can be read, as those of records in memory, only a
    `//go:build` line makes resolving fail. All else that is wrong the package itself tells.
-/

import PackageIndex.Proofs.Fallible
import PackageIndex.Resolve.Assembly

namespace PackageIndex

open Fallible

/-- Each field of `f` is that of `g`, and then fails for a reason in `good` if at all, or fails for one in `bad`. -/
structure FileView.Concurs (good bad : FormatError → Prop) (f g : FileView) : Prop where
  name : Fallible.Concurs good bad f.name g.name
  synopsis : Fallible.Concurs good bad f.synopsis g.synopsis
  pkgName : Fallible.Concurs good bad f.pkgName g.pkgName
  ignoreFile : Fallible.Concurs good bad f.ignoreFile g.ignoreFile
  binaryOnly : Fallible.Concurs good bad f.binaryOnly g.binaryOnly
  goBuild : Fallible.Concurs good bad f.goBuild g.goBuild
  plusBuild : Fallible.Concurs good bad f.plusBuild g.plusBuild
  importComment : Fallible.Concurs good bad f.importComment g.importComment
  importCommentLine : Fallible.Concurs good bad f.importCommentLine g.importCommentLine
  imports : Fallible.Concurs good bad f.imports g.imports
  embeds : Fallible.Concurs good bad f.embeds g.embeds
  error : Fallible.Concurs good bad f.error g.error
  parseError : Fallible.Concurs good bad f.parseError g.parseError

structure PackageView.Concurs (good bad : FormatError → Prop) (p q : PackageView) : Prop where
  error : p.error = q.error
  path : p.path = q.path
  srcDir : p.srcDir = q.srcDir
  dir : p.dir = q.dir
  files : List.Forall₂ (FileView.Concurs good bad) p.files q.files

inductive FieldFault (bad : FormatError → Prop) : Failure → Prop
  | format {e : FormatError} : bad e → FieldFault bad (.format e)

/-- What resolving fails with that reads fields which fail for reasons in `good`. -/
inductive ResolveFault (good : FormatError → Prop) : Failure → Prop
  | format {e : FormatError} : good e → ResolveFault good (.format e)
  | constraint (file : String) (e : Constraint.SyntaxError) : ResolveFault good (.constraint file e)

variable {good bad : FormatError → Prop}

theorem Fallible.Concurs.format {α : Type} {r s : Field α} (h : Concurs good bad r s) :
    Concurs (ResolveFault good) (FieldFault bad) (r.mapError .format) (s.mapError .format) :=
  h.mapError (fun _ => .format) fun _ => .format

/-! ## Reading everything -/

theorem FileView.Concurs.read {f g : FileView} (h : FileView.Concurs good bad f g) :
    Fallible.Concurs good bad f.read g.read :=
  h.name.bind fun _ => h.synopsis.bind fun _ => h.pkgName.bind fun _ => h.ignoreFile.bind fun _ =>
  h.binaryOnly.bind fun _ => h.goBuild.bind fun _ => h.plusBuild.bind fun _ => h.importComment.bind fun _ =>
  h.importCommentLine.bind fun _ => h.imports.bind fun _ => h.embeds.bind fun _ => h.error.bind fun _ =>
  h.parseError.bind fun _ => concurs_ok _

theorem PackageView.Concurs.read {p q : PackageView} (h : PackageView.Concurs good bad p q) :
    Fallible.Concurs good bad p.read q.read := by
  unfold PackageView.read
  rw [h.error, h.path, h.srcDir, h.dir]
  exact (Concurs.mapM h.files fun _ _ => FileView.Concurs.read).bind fun _ => concurs_ok _

/-! ## One file -/

variable {f g : FileView} {ctx : BuildContext} {mode : ResolveMode} {dir : String}

theorem concurs_constraintsHold (h : FileView.Concurs good bad f g) (name : String) :
    Concurs (ResolveFault good) (FieldFault bad) (constraintsHold ctx name f) (constraintsHold ctx name g) := by
  unfold constraintsHold
  refine h.goBuild.format.bind fun goBuild => ?_
  refine Concurs.ite (fun _ => ?_) fun _ => ?_
  · split
    · exact concurs_ok _
    · exact concurs_same (.constraint name _)
  · exact h.plusBuild.format.bind fun _ => concurs_ok _

theorem concurs_isBuilt (h : FileView.Concurs good bad f g) (name : String) :
    Concurs (ResolveFault good) (FieldFault bad) (isBuilt ctx name f) (isBuilt ctx name g) := by
  unfold isBuilt
  refine Concurs.ite (fun _ => ?_) fun _ => concurs_ok _
  exact (concurs_constraintsHold h name).bind fun _ => concurs_ok _

theorem concurs_meetCommentOf (h : FileView.Concurs good bad f g) (file : String) (n : Naming) :
    Concurs good bad (meetCommentOf mode dir file f n) (meetCommentOf mode dir file g n) := by
  unfold meetCommentOf
  refine Concurs.ite (fun _ => ?_) fun _ => concurs_ok _
  refine h.importCommentLine.bind fun line => ?_
  refine Concurs.ite (fun _ => concurs_ok _) fun _ => ?_
  exact h.importComment.bind fun _ => concurs_ok _

theorem concurs_meetSynopsis (h : FileView.Concurs good bad f g) (isTest : Bool) (n : Naming) :
    Concurs good bad (meetSynopsis isTest f n) (meetSynopsis isTest g n) := by
  unfold meetSynopsis
  refine Concurs.ite (fun _ => ?_) fun _ => concurs_ok _
  exact h.synopsis.bind fun _ => concurs_ok _

theorem concurs_embedsFor (h : FileView.Concurs good bad f g) (listing : Listing) :
    Concurs good bad (embedsFor listing f) (embedsFor listing g) :=
  Concurs.ite (fun _ => concurs_ok _) fun _ => h.embeds

theorem concurs_judgeSource (h : FileView.Concurs good bad f g) (n : Naming) (o : Outcome) :
    Concurs good bad (judgeSource ctx mode dir n f o) (judgeSource ctx mode dir n g o) := by
  unfold judgeSource
  refine h.pkgName.bind fun pkg => ?_
  refine Concurs.ite (fun _ => concurs_ok _) fun _ => ?_
  refine (concurs_meetSynopsis h _ _).bind fun named => ?_
  refine (concurs_meetCommentOf h _ _).bind fun commented => ?_
  refine h.imports.bind fun imports => ?_
  exact (concurs_embedsFor h _).bind fun embeds => concurs_ok _

theorem concurs_judge (h : FileView.Concurs good bad f g) (n : Naming) :
    Concurs (ResolveFault good) (FieldFault bad) (judge ctx mode dir n f) (judge ctx mode dir n g) := by
  unfold judge
  refine h.name.format.bind fun name => ?_
  refine h.error.format.bind fun error => ?_
  refine Concurs.ite (fun _ => concurs_ok _) fun _ => ?_
  refine h.parseError.format.bind fun parseError => ?_
  refine h.ignoreFile.format.bind fun ignoreFile => ?_
  refine Concurs.ite (fun _ => concurs_ok _) fun _ => ?_
  refine (concurs_isBuilt h name).bind fun (built, tags) => ?_
  refine Concurs.ite (fun _ => concurs_ok _) fun _ => ?_
  refine h.binaryOnly.format.bind fun binaryOnly => ?_
  cases Language.ofName? name with
  | none => exact concurs_ok _
  | some l =>
    cases l with
    | go => exact (concurs_judgeSource h n _).format
    | _ => exact concurs_ok _

/-! ## The whole -/

theorem concurs_judgeAll {fs gs : List FileView} (h : List.Forall₂ (FileView.Concurs good bad) fs gs) (n : Naming) :
    Concurs (ResolveFault good) (FieldFault bad) (judgeAll ctx mode dir n fs) (judgeAll ctx mode dir n gs) := by
  induction h generalizing n with
  | nil => exact concurs_ok _
  | cons hf _ ih => exact (concurs_judge hf n).bind fun on => (ih on.2).bind fun _ => concurs_ok _

theorem concurs_isBinaryOnly {fs gs : List FileView} (h : List.Forall₂ (FileView.Concurs good bad) fs gs) :
    Concurs (ResolveFault good) (FieldFault bad) (isBinaryOnly ctx fs) (isBinaryOnly ctx gs) := by
  induction h with
  | nil => exact concurs_ok _
  | cons hf _ ih =>
    unfold isBinaryOnly
    refine hf.binaryOnly.format.bind fun binaryOnly => Concurs.ite (fun _ => ih) fun _ => ?_
    refine hf.error.format.bind fun error => Concurs.ite (fun _ => ih) fun _ => ?_
    refine hf.ignoreFile.format.bind fun ignoreFile => Concurs.ite (fun _ => ih) fun _ => ?_
    refine hf.name.format.bind fun name => ?_
    refine (concurs_isBuilt hf name).bind fun built => ?_
    exact Concurs.ite (fun _ => concurs_ok _) fun _ => ih

/-- A package read in part resolves to what the whole one would, or fails because of a field. -/
theorem concurs_resolve {p q : PackageView} (h : PackageView.Concurs good bad p q) (ctx : BuildContext)
    (mode : ResolveMode) :
    Concurs (ResolveFault good) (FieldFault bad) (resolve p ctx mode) (resolve q ctx mode) := by
  have hjudged : Concurs (ResolveFault good) (FieldFault bad)
      (judgeAll ctx mode q.srcDir {} p.files >>= fun r => .ok (assemble ctx p r.1 r.2))
      (judgeAll ctx mode q.srcDir {} q.files >>= fun r => .ok (assemble ctx q r.1 r.2)) := by
    refine (concurs_judgeAll h.files {}).bind fun r => ?_
    unfold assemble
    rw [h.path, h.srcDir]
    exact concurs_ok _
  unfold resolve
  rw [h.error, h.path, h.srcDir]
  refine Concurs.ite (fun _ => concurs_ok _) fun _ => ?_
  refine Concurs.ite (fun _ => concurs_ok _) fun _ => ?_
  refine Concurs.ite (fun _ => concurs_ok _) fun _ => ?_
  refine Concurs.ite (fun _ => ?_) fun _ => hjudged
  refine (concurs_isBinaryOnly h.files).bind fun binaryOnly => ?_
  exact Concurs.ite (fun _ => concurs_ok _) fun _ => hjudged

/-! ## Records in memory -/

theorem FileRecord.concurs_view (f : FileRecord) : FileView.Concurs good bad f.view f.view where
  name := concurs_ok _
  synopsis := concurs_ok _
  pkgName := concurs_ok _
  ignoreFile := concurs_ok _
  binaryOnly := concurs_ok _
  goBuild := concurs_ok _
  plusBuild := concurs_ok _
  importComment := concurs_ok _
  importCommentLine := concurs_ok _
  imports := concurs_ok _
  embeds := concurs_ok _
  error := concurs_ok _
  parseError := concurs_ok _

theorem PackageRecord.concurs_view (p : PackageRecord) : PackageView.Concurs good bad p.view p.view where
  error := rfl
  path := rfl
  srcDir := rfl
  dir := rfl
  files := by
    unfold PackageRecord.view
    rw [List.forall₂_map_left_iff, List.forall₂_map_right_iff, List.forall₂_same]
    exact fun f _ => f.concurs_view

/-- Of a record in memory every field can be read, so only constraints are left to fail. -/
theorem resolve_record {p : PackageRecord} {ctx : BuildContext} {mode : ResolveMode} {e : Failure}
    (h : resolve p.view ctx mode = .error e) : ∃ file fault, e = .constraint file fault := by
  have hp : PackageView.Concurs (fun _ => False) (fun _ => False) p.view p.view := p.concurs_view
  rcases concurs_resolve hp ctx mode with ⟨-, hfails⟩ | ⟨_, ⟨hbad⟩, -⟩
  · cases hfails e h with
    | format hgood => exact hgood.elim
    | constraint file fault => exact ⟨file, fault, rfl⟩
  · exact hbad.elim

end PackageIndex
