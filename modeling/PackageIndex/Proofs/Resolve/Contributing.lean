/-
  PackageIndex.Proofs.Resolve.Contributing — what the files of a package add to it besides reports.

  A package is put together from the outcomes of its files. Their problems only go into its
  error and its list of files with a problem, so all else of it is the same
  - where outcomes differ in their problems, and
  - where outcomes are left out that are nothing but problems, as that of a file that cannot
    be read.
  `Contributes` is the relation between two lists of outcomes that differ in this way, and
  `assemble_unreported` says what packages put together from them have in common. So a package
  of which files are left out that cannot be read comes to the same, up to what is reported
  (`resolve_without`).
-/

import PackageIndex.Proofs.Resolve.Listing

namespace PackageIndex

open Fallible

variable {ctx : BuildContext} {mode : ResolveMode} {dir : String}

def Outcome.unreported (o : Outcome) : Outcome := { o with problems := [] }

def BuildPackage.unreported (q : BuildPackage) : BuildPackage := { q with invalidGoFiles := [], error := none }

/-- The outcomes `rs` add what `os` add, but for reports. -/
inductive Contributes : List Outcome → List Outcome → Prop
  | nil : Contributes [] []
  | keep {o r : Outcome} {os rs : List Outcome} : r.unreported = o.unreported → Contributes os rs →
    Contributes (o :: os) (r :: rs)
  | skip {os rs : List Outcome} (name : String) (problems : List PackageProblem) : Contributes os rs →
    Contributes ({ name, problems } :: os) rs

namespace Contributes

variable {os rs : List Outcome}

/-- Outcomes that differ in their problems alone. -/
theorem of_map_eq (h : rs.map Outcome.unreported = os.map Outcome.unreported) :
    Contributes os rs := by
  induction os generalizing rs with
  | nil =>
    rw [List.map_eq_nil_iff.mp h]
    exact .nil
  | cons o os ih =>
    obtain ⟨r, rs', rfl, hr, hrs⟩ := List.map_eq_cons_iff.mp h
    exact .keep hr (ih hrs)

/-! ## What is collected -/

theorem flatMap_eq {α : Type} {g : Outcome → List α} (h : Contributes os rs) (hg : ∀ o, g o.unreported = g o)
    (hskip : ∀ name, g { name } = []) : rs.flatMap g = os.flatMap g := by
  induction h with
  | nil => rfl
  | @keep o r _ _ hsame _ ih =>
    have hadds : g r = g o := by rw [← hg r, hsame, hg o]
    rw [List.flatMap_cons, List.flatMap_cons, ih, hadds]
  | skip name problems _ ih =>
    have hnothing : g { name, problems } = [] := (hg { name, problems }).symm.trans (hskip name)
    rw [List.flatMap_cons, hnothing, ih]
    rfl

theorem items_eq {α : Type} {items : Outcome → List α} (h : Contributes os rs) (bs : List Listing)
    (hitems : ∀ o, items o.unreported = items o) :
    (outcomesIn bs rs).flatMap items = (outcomesIn bs os).flatMap items := by
  have hflat (l : List Outcome) : (outcomesIn bs l).flatMap items =
      l.flatMap fun o => if bs.any (o.listing = some ·) then items o else [] := by
    induction l with
    | nil => rfl
    | cons o l ih =>
      unfold outcomesIn at ih ⊢
      rw [List.filter_cons, List.flatMap_cons, ← ih]
      by_cases ho : bs.any (o.listing = some ·) = true <;> simp [ho]
  rw [hflat, hflat]
  apply h.flatMap_eq
  · intro o
    simp only [hitems]
    rfl
  · intro name
    simp

theorem listed_eq (h : Contributes os rs) (b : Listing) : filesIn b rs = filesIn b os := by
  rw [filesIn_eq, filesIn_eq, List.map_eq_flatMap, List.map_eq_flatMap]
  exact h.items_eq [b] fun _ => rfl

theorem binaryOnly_eq (h : Contributes os rs) : rs.any (·.binaryOnly) = os.any (·.binaryOnly) := by
  induction h with
  | nil => rfl
  | @keep o r _ _ hsame _ ih =>
    rw [List.any_cons, List.any_cons, ih]
    show (r.unreported.binaryOnly || _) = (o.unreported.binaryOnly || _)
    rw [hsame]
  | skip name problems _ ih => rw [List.any_cons, ih]; rfl

theorem flags_eq (h : Contributes os rs) (flags : Cgo.Flags) :
    rs.foldl (fun flags o => flags ++ o.flags) flags = os.foldl (fun flags o => flags ++ o.flags) flags := by
  induction h generalizing flags with
  | nil => rfl
  | @keep o r os _ hsame _ ih =>
    rw [List.foldl_cons, List.foldl_cons, ih]
    show os.foldl _ (flags ++ r.unreported.flags) = os.foldl _ (flags ++ o.unreported.flags)
    rw [hsame]
  | skip name problems _ ih =>
    rw [List.foldl_cons, ih, Cgo.Flags.append_empty]

/-! ## The package -/

theorem assemble_unreported (h : Contributes os rs) (ctx : BuildContext) (p : PackageView) (n : Naming) :
    (assemble ctx p rs n).unreported = (assemble ctx p os n).unreported := by
  have himports (bs : List Listing) : importsIn bs rs = importsIn bs os := by
    unfold importsIn
    rw [h.items_eq bs fun _ => rfl]
  have hembeds (bs : List Listing) : embedsIn bs rs = embedsIn bs os := by
    unfold embedsIn
    rw [h.items_eq bs fun _ => rfl]
  have htags : rs.flatMap (·.tags) = os.flatMap (·.tags) := h.flatMap_eq (fun _ => rfl) fun _ => rfl
  unfold BuildPackage.unreported assemble
  simp only [h.listed_eq, himports, hembeds, htags, h.binaryOnly_eq, h.flags_eq]

end Contributes

/-! ## Files that cannot be read -/

inductive WithoutUnread : List FileView → List FileView → Prop
  | nil : WithoutUnread [] []
  | keep {fs gs : List FileView} (f : FileView) : WithoutUnread fs gs → WithoutUnread (f :: fs) (f :: gs)
  | drop {fs gs : List FileView} {f : FileView} {error : String} : f.error = .ok error → error ≠ "" →
    WithoutUnread fs gs → WithoutUnread (f :: fs) gs

theorem judgesAll_without {n n' : Naming} {fs gs : List FileView} {os : List Outcome} (hgs : WithoutUnread fs gs)
    (h : JudgesAll ctx mode dir n fs os n') : ∃ rs, JudgesAll ctx mode dir n gs rs n' ∧ Contributes os rs := by
  induction hgs generalizing n os with
  | nil =>
    cases h
    exact ⟨[], .nil _, .nil⟩
  | keep f _ ih =>
    cases h with
    | cons hf hfs =>
      obtain ⟨rs, hrs, hsame⟩ := ih hfs
      exact ⟨_ :: rs, .cons hf hrs, .keep rfl hsame⟩
  | @drop _ _ f error herror hne _ ih =>
    cases h with
    | cons hf hfs =>
      have hread {parsed : Prop} (h : f.error = .ok "") : parsed := by
        rw [herror] at h
        exact absurd (Except.ok.inj h) hne
      cases hf with
      | unread =>
        obtain ⟨rs, hrs, hsame⟩ := ih hfs
        exact ⟨rs, hrs, .skip _ _ hsame⟩
      | ignored _ h => exact hread h
      | excluded _ h => exact hread h
      | other _ h => exact hread h
      | source _ h => exact hread h

theorem isBinaryOnly_without {fs gs : List FileView} {binaryOnly : Bool} (hgs : WithoutUnread fs gs)
    (h : isBinaryOnly ctx fs = .ok binaryOnly) : isBinaryOnly ctx gs = .ok binaryOnly := by
  induction hgs with
  | nil => exact h
  | keep f _ ih =>
    rw [isBinaryOnly_cons] at h ⊢
    obtain ⟨marked, hmarked, h⟩ := bind_eq_ok.mp h
    refine bind_eq_ok.mpr ⟨marked, hmarked, ?_⟩
    cases marked with
    | true => exact h
    | false => exact ih h
  | @drop _ _ f error herror hne _ ih =>
    rw [isBinaryOnly_cons] at h
    obtain ⟨marked, hmarked, h⟩ := bind_eq_ok.mp h
    have hunmarked : marked = false := by
      obtain ⟨binaryOnly, -, hmarked⟩ := bind_eq_ok.mp hmarked
      split at hmarked
      · exact (Except.ok.inj hmarked).symm
      · rw [read_bind herror, if_pos hne] at hmarked
        exact (Except.ok.inj hmarked).symm
    rw [hunmarked] at h
    exact ih h

theorem resolve_without {p : PackageView} {q : BuildPackage} {files : List FileView}
    (hfiles : WithoutUnread p.files files) (h : resolve p ctx mode = .ok q) :
    ∃ r, resolve { p with files } ctx mode = .ok r ∧ r.unreported = q.unreported := by
  have hearly : PackageView.early? { p with files } ctx mode = p.early? ctx mode := rfl
  cases resolves_iff.mp h with
  | early hanswered => exact ⟨q, resolve_of_early (hearly.trans hanswered), rfl⟩
  | stub hnone hallow hbinary =>
    exact ⟨_, resolves_iff.mpr (.stub (hearly.trans hnone) hallow (isBinaryOnly_without hfiles hbinary)), rfl⟩
  | @judged os n hnone hbinary hall =>
    obtain ⟨rs, hrs, hsame⟩ := judgesAll_without hfiles hall
    refine ⟨assemble ctx p rs n, resolves_iff.mpr (.judged (hearly.trans hnone) ?_ hrs), ?_⟩
    · intro hallow
      exact isBinaryOnly_without hfiles (hbinary hallow)
    · exact hsame.assemble_unreported ctx p _

end PackageIndex
