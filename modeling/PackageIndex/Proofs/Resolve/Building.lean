/-
  PackageIndex.Proofs.Resolve.Building — whether a file is built, and the tags asked about on the way.

  - `Builds` has one case for a file that its name rules out and one for a file whose
    constraints are evaluated; `isBuilt_eq_ok`: these are the answers there are.
  - `Builds.congr`: another context that agrees on the tags asked about gives the same answer
    and asks about the same.
-/

import PackageIndex.Proofs.Context.Asking
import PackageIndex.Proofs.Fallible
import PackageIndex.Resolve.Outcome

namespace PackageIndex

open BuildContext Fallible

variable {ctx ctx' : BuildContext} {name : String} {f : FileView}

/-! ## Legacy lines -/

def Constraint.ofLine? (line : String) : Option Constraint := (Constraint.ofLine line.toList).toOption

theorem Constraint.ofLine?_eq_some {line : String} {e : Constraint} :
    ofLine? line = some e ↔ Constraint.ofLine line.toList = .ok e := by
  unfold ofLine?
  cases Constraint.ofLine line.toList with
  | error fault => exact ⟨nofun, nofun⟩
  | ok e' => exact ⟨fun h => congrArg Except.ok (Option.some.inj h), fun h => congrArg some (Except.ok.inj h)⟩

theorem run_plusLinesHold_cons (line : String) (lines : List String) (log : List String) :
    (plusLinesHold ctx (line :: lines)).run log =
      match Constraint.ofLine line.toList with
      | .ok e =>
        let (held, log) := (e.eval ctx.ask).run log
        let (rest, log) := (plusLinesHold ctx lines).run log
        (rest && held, log)
      | .error _ => (plusLinesHold ctx lines).run log := by
  rw [plusLinesHold]
  cases Constraint.ofLine line.toList <;> rfl

/-- All lines that can be read are evaluated, also behind one that does not hold. -/
theorem run_plusLinesHold (ctx : BuildContext) (lines log : List String) :
    (plusLinesHold ctx lines).run log =
      ((lines.filterMap Constraint.ofLine?).all (holds ctx.satisfies),
        log ++ (lines.filterMap Constraint.ofLine?).flatMap Constraint.tags) := by
  induction lines generalizing log with
  | nil => exact congrArg (true, ·) (List.append_nil log).symm
  | cons line lines ih =>
    rw [run_plusLinesHold_cons, List.filterMap_cons, Constraint.ofLine?]
    cases Constraint.ofLine line.toList with
    | error e => exact ih log
    | ok e =>
      simp only [run_eval_ask, ih, Except.toOption, List.all_cons, List.flatMap_cons, List.append_assoc]
      rw [Bool.and_comm]

/-! ## The constraints of a file -/

/-- The constraints that a file states. Only an expression of the newer kind has to be one that can be read. -/
def FileView.constraints (name : String) (f : FileView) : Except Failure (List Constraint) := do
  let goBuild ← f.goBuild.mapError .format
  if goBuild ≠ "" then
    match Constraint.ofLine goBuild.toList with
    | .ok e => return [e]
    | .error e => .error (.constraint name e)
  else return (← f.plusBuild.mapError .format).filterMap Constraint.ofLine?

theorem run_constraintsHold (ctx : BuildContext) (name : String) (f : FileView) (log : List String) :
    (constraintsHold ctx name f).map (·.run log) =
      (f.constraints name).map fun es => (es.all (holds ctx.satisfies), log ++ es.flatMap Constraint.tags) := by
  unfold constraintsHold FileView.constraints
  cases f.goBuild.mapError Failure.format with
  | error e => rfl
  | ok goBuild =>
    show Except.map _ (ite (goBuild ≠ "") _ _) = Except.map _ (ite (goBuild ≠ "") _ _)
    split
    · cases Constraint.ofLine goBuild.toList with
      | error e => rfl
      | ok e =>
        show Except.ok ((e.eval ctx.ask).run log) = Except.ok _
        rw [run_eval_ask]
        simp
    · cases f.plusBuild.mapError Failure.format with
      | error e => rfl
      | ok lines => exact congrArg Except.ok (run_plusLinesHold ctx lines log)

/-! ## Whether a file is built -/

inductive Builds (ctx : BuildContext) (name : String) (f : FileView) : Bool → List String → Prop
  /-- The name rules the file out, and its constraints are not read. -/
  | excluded : (NameTags.ofName name).holds ctx = false → ctx.useAllFiles = false →
    Builds ctx name f false ((NameTags.ofName name).asked ctx)
  | evaluated {es : List Constraint} : ((NameTags.ofName name).holds ctx || ctx.useAllFiles) = true →
    f.constraints name = .ok es →
    Builds ctx name f (es.all (holds ctx.satisfies) || ctx.useAllFiles)
      ((NameTags.ofName name).asked ctx ++ es.flatMap Constraint.tags)

theorem isBuilt_eq (ctx : BuildContext) (name : String) (f : FileView) :
    isBuilt ctx name f =
      if (NameTags.ofName name).holds ctx || ctx.useAllFiles then
        (f.constraints name).map fun es => (es.all (holds ctx.satisfies) || ctx.useAllFiles,
          (NameTags.ofName name).asked ctx ++ es.flatMap Constraint.tags)
      else .ok (false, (NameTags.ofName name).asked ctx) := by
  have hname := (NameTags.ofName name).run_satisfied ctx []
  have hrun := run_constraintsHold ctx name f ((NameTags.ofName name).asked ctx)
  rw [List.nil_append] at hname
  unfold isBuilt
  rw [hname]
  show ite _ _ _ = _
  split
  · cases hheld : constraintsHold ctx name f with
    | error e =>
      rw [hheld] at hrun
      cases hes : f.constraints name <;> rw [hes] at hrun <;> cases hrun
      rfl
    | ok asking =>
      rw [hheld] at hrun
      cases hes : f.constraints name with
      | error e =>
        rw [hes] at hrun
        cases hrun
      | ok es =>
        rw [hes] at hrun
        have hpair : asking.run _ = (es.all (holds ctx.satisfies), _) := Except.ok.inj hrun
        show Except.ok ((asking.run _).1 || ctx.useAllFiles, (asking.run _).2) = _
        rw [hpair]
        rfl
  · rfl

theorem isBuilt_eq_ok {built : Bool} {tags : List String} :
    isBuilt ctx name f = .ok (built, tags) ↔ Builds ctx name f built tags := by
  rw [isBuilt_eq]
  constructor
  · intro h
    split at h
    · rename_i hgood
      cases hes : f.constraints name with
      | error e =>
        rw [hes] at h
        cases h
      | ok es =>
        rw [hes] at h
        cases h
        exact .evaluated hgood hes
    · rename_i hbad
      cases h
      rw [Bool.not_eq_true, Bool.or_eq_false_iff] at hbad
      exact .excluded hbad.1 hbad.2
  · intro h
    cases h with
    | excluded hname hall => rw [hname, hall]; rfl
    | evaluated hgood hes => rw [if_pos hgood, hes]; rfl

/-! ## Another context -/

theorem all_holds_congr {es : List Constraint}
    (h : ∀ tag ∈ es.flatMap Constraint.tags, ctx'.satisfies tag = ctx.satisfies tag) :
    es.all (holds ctx'.satisfies) = es.all (holds ctx.satisfies) := by
  induction es with
  | nil => rfl
  | cons e es ih =>
    rw [List.flatMap_cons] at h
    have he : holds ctx'.satisfies e = holds ctx.satisfies e :=
      Constraint.holds_congr fun tag ht => h tag (List.mem_append_left _ ht)
    rw [List.all_cons, List.all_cons, he, ih fun tag ht => h tag (List.mem_append_right _ ht)]

theorem Builds.congr {built : Bool} {tags : List String} (h : Builds ctx name f built tags)
    (huse : ctx'.useAllFiles = ctx.useAllFiles) (hagree : ∀ tag ∈ tags, ctx'.satisfies tag = ctx.satisfies tag) :
    Builds ctx' name f built tags := by
  cases h with
  | excluded hname hall =>
    obtain ⟨hasked, hholds⟩ := NameTags.asked_congr hagree
    rw [← hasked]
    exact .excluded (hholds.trans hname) (huse.trans hall)
  | @evaluated es hgood hes =>
    obtain ⟨hasked, hholds⟩ := NameTags.asked_congr fun tag ht => hagree tag (List.mem_append_left _ ht)
    have hall := all_holds_congr fun tag ht => hagree tag (List.mem_append_right _ ht)
    rw [← hholds, ← huse] at hgood
    rw [← hasked, ← hall, ← huse]
    exact .evaluated hgood hes

end PackageIndex
