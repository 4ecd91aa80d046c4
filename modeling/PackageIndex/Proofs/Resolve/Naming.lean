/-
  PackageIndex.Proofs.Resolve.Naming — what is known of a package from one of its files to the next.

  - `name_of_judgesAll`: the name of a package stays once there is one.
  - `Naming.name_of_meet_eq_nil`: a file that finds no other name leaves its own.
  - `testedPackage?_eq_some`: a test from outside is of the package it tests with `_test` behind.
  - `uncommented_of_meetCommentOf`: import comments change nothing that is known but the comment.
  Reading a record in memory for what is known cannot fail (`meetCommentOf_of_record`).
-/

import PackageIndex.Proofs.Resolve.Judging

namespace PackageIndex

variable {ctx : BuildContext} {mode : ResolveMode} {dir : String} {f : FileView}

/-! ## Names -/

theorem Naming.meet_of_unnamed {n : Naming} (h : n.name = "") (dir file pkg : String) :
    n.meet dir file pkg = ({ n with name := pkg, namedBy := file }, []) := if_pos h

theorem Naming.meet_of_named {n : Naming} (h : n.name ≠ "") (dir file pkg : String) :
    n.meet dir file pkg =
      (n, if pkg = n.name then [] else [.multiplePackages dir (n.name, pkg) (n.namedBy, file)]) := by
  unfold Naming.meet
  rw [if_neg h]
  split <;> rfl

theorem Naming.name_of_meet {n : Naming} (h : n.name ≠ "") (dir file pkg : String) :
    (n.meet dir file pkg).1.name = n.name := by rw [Naming.meet_of_named h]

/-- A file that finds no other name is of the package as it is named now. -/
theorem Naming.name_of_meet_eq_nil {n : Naming} {dir file pkg : String} (h : (n.meet dir file pkg).2 = []) :
    (n.meet dir file pkg).1.name = pkg := by
  by_cases hname : n.name = ""
  · rw [Naming.meet_of_unnamed hname]
  · rw [Naming.meet_of_named hname] at h ⊢
    by_cases hpkg : pkg = n.name
    · exact hpkg.symm
    · rw [if_neg hpkg] at h
      cases h

theorem Naming.comment_of_meet (n : Naming) (dir file pkg : String) :
    (n.meet dir file pkg).1.importComment = n.importComment ∧ (n.meet dir file pkg).1.commentedBy = n.commentedBy := by
  by_cases hname : n.name = ""
  · rw [Naming.meet_of_unnamed hname]
    exact ⟨rfl, rfl⟩
  · rw [Naming.meet_of_named hname]
    exact ⟨rfl, rfl⟩

theorem testedPackage?_eq_some {n : Naming} {file pkg tested : String} (h : testedPackage? n file pkg = some tested) :
    isTestName file = true ∧ pkg = tested ++ "_test" := by
  unfold testedPackage? at h
  split at h
  · rename_i hcond
    rw [Bool.and_eq_true, Bool.and_eq_true] at hcond
    obtain ⟨⟨htest, hending⟩, -⟩ := hcond
    obtain ⟨front, hfront⟩ := List.isSuffixOf_iff_suffix.mp hending
    have htake : pkg.toList.take (pkg.toList.length - "_test".length) = front := by
      rw [← hfront, List.length_append]
      exact List.take_left
    rw [htake] at h
    cases h
    refine ⟨htest, ?_⟩
    rw [← String.toList_inj, String.toList_append, String.toList_ofList, hfront]
  · cases h

/-! ## Synopses -/

/-- A synopsis changes nothing else that is known. -/
theorem eq_of_meetSynopsis {n n' : Naming} {isTest : Bool} (h : meetSynopsis isTest f n = .ok n') :
    n' = { n with doc := n'.doc } := by
  unfold meetSynopsis at h
  split at h
  · obtain ⟨doc, -, h⟩ := Fallible.bind_eq_ok.mp h
    cases h
    rfl
  · cases h
    rfl

theorem name_of_meetSynopsis {n n' : Naming} {isTest : Bool} (h : meetSynopsis isTest f n = .ok n') :
    n'.name = n.name := by rw [eq_of_meetSynopsis h]

theorem meetSynopsis_of_record (isTest : Bool) (g : FileRecord) (n : Naming) :
    ∃ named, meetSynopsis isTest g.view n = .ok named := by
  unfold meetSynopsis
  split <;> exact ⟨_, rfl⟩

/-! ## Import comments -/

def Naming.uncommented (n : Naming) : Naming := { n with importComment := "", commentedBy := "" }

theorem Naming.uncommented_meetComment (n : Naming) (dir file quoted : String) (line : UInt32) :
    (n.meetComment dir file quoted line).1.uncommented = n.uncommented := by
  unfold Naming.meetComment
  split
  · rfl
  · split
    · rfl
    · split <;> rfl

theorem uncommented_of_meetCommentOf {n n' : Naming} {file : String} {problems : List PackageProblem}
    (h : meetCommentOf mode dir file f n = .ok (n', problems)) : n'.uncommented = n.uncommented := by
  unfold meetCommentOf at h
  split at h
  · obtain ⟨line, -, h⟩ := Fallible.bind_eq_ok.mp h
    split at h
    · cases h
      rfl
    · obtain ⟨quoted, -, h⟩ := Fallible.bind_eq_ok.mp h
      have hmet : n.meetComment dir file quoted line = (n', problems) := Except.ok.inj h
      rw [← n.uncommented_meetComment dir file quoted line, hmet]
  · cases h
    rfl

theorem name_of_meetCommentOf {n n' : Naming} {file : String} {problems : List PackageProblem}
    (h : meetCommentOf mode dir file f n = .ok (n', problems)) : n'.name = n.name := by
  show n'.uncommented.name = n.uncommented.name
  rw [uncommented_of_meetCommentOf h]

theorem meetCommentOf_of_record (mode : ResolveMode) (dir file : String) (g : FileRecord) (n : Naming) :
    ∃ commented, meetCommentOf mode dir file g.view n = .ok commented := by
  by_cases hmode : mode.importComment = true
  · by_cases hline : g.importCommentLine = 0
    · refine ⟨(n, []), ?_⟩
      unfold meetCommentOf FileRecord.view
      rw [if_pos hmode]
      exact if_pos hline
    · refine ⟨n.meetComment dir file g.importComment g.importCommentLine, ?_⟩
      unfold meetCommentOf FileRecord.view
      rw [if_pos hmode]
      exact if_neg hline
  · refine ⟨(n, []), ?_⟩
    unfold meetCommentOf
    rw [if_neg hmode]
    rfl

/-! ## From file to file -/

theorem name_of_judgesSource {n n' : Naming} {o o' : Outcome} (h : JudgesSource ctx mode dir n f o o' n')
    (hname : n.name ≠ "") : n'.name = n.name := by
  cases h with
  | documentation => rfl
  | source hpkg hdoc hnamed hcommented himports hembeds =>
    rw [name_of_meetCommentOf hcommented, name_of_meetSynopsis hnamed, Naming.name_of_meet hname]

theorem name_of_judges {n n' : Naming} {o : Outcome} (h : Judges ctx mode dir n f o n') (hname : n.name ≠ "") :
    n'.name = n.name := by
  cases h with
  | source _ _ _ _ _ _ _ hsource => exact name_of_judgesSource hsource hname
  | _ => rfl

theorem name_of_judgesAll {n n' : Naming} {fs : List FileView} {os : List Outcome}
    (h : JudgesAll ctx mode dir n fs os n') (hname : n.name ≠ "") : n'.name = n.name := by
  induction h with
  | nil => rfl
  | cons hf _ ih =>
    have hfirst := name_of_judges hf hname
    rw [ih (hfirst ▸ hname), hfirst]

end PackageIndex
