/-
  PackageIndex.Proofs.Context.Asking — what asking about tags comes to, and what the log says.

  - `run_eval_ask`, `NameTags.run_satisfied`: the answer, and the tags that are put to the log.
  - `NameTags.asked_congr`: contexts that agree on the tags asked about ask about the same.
  - `mem_distinctTags`, `distinctTags_pairwise`: a log without repeats, in order.
-/

import PackageIndex.Context.FileName
import PackageIndex.Proofs.Constraint.Evaluation
import PackageIndex.Proofs.Record.SortedMap

namespace PackageIndex

variable {ctx ctx' : BuildContext}

/-! ## Constraints -/

theorem BuildContext.run_ask (ctx : BuildContext) (tag : String) (log : List String) :
    (ctx.ask tag).run log = (ctx.satisfies tag, log ++ [tag]) := rfl

theorem run_eval_ask (ctx : BuildContext) (e : Constraint) (log : List String) :
    (e.eval ctx.ask).run log = (BuildContext.holds ctx.satisfies e, log ++ e.tags) := by
  rw [Constraint.run_eval ctx.run_ask, List.foldl_append_eq_append (f := fun tag => [tag]), ← List.flatMap_def,
    List.flatMap_singleton']

/-! ## File names -/

namespace NameTags

def holds (ctx : BuildContext) : NameTags → Bool
  | .none => true
  | .one tag => ctx.satisfies tag
  | .pair system architecture => ctx.satisfies architecture && ctx.satisfies system

/-- The tags asked about: a pair's system only where its architecture is right. -/
def asked (ctx : BuildContext) : NameTags → List String
  | .none => []
  | .one tag => [tag]
  | .pair system architecture => if ctx.satisfies architecture then [architecture, system] else [architecture]

theorem run_satisfied (ctx : BuildContext) (t : NameTags) (log : List String) :
    (t.satisfied ctx).run log = (t.holds ctx, log ++ t.asked ctx) := by
  cases t with
  | none => exact congrArg (true, ·) (List.append_nil log).symm
  | one tag => rfl
  | pair system architecture =>
    simp only [satisfied, holds, asked, StateT.run_bind, BuildContext.run_ask]
    cases ctx.satisfies architecture with
    | false => rfl
    | true =>
      show (ctx.satisfies system, log ++ [architecture] ++ [system]) = _
      rw [List.append_assoc]
      rfl

theorem asked_congr {t : NameTags} (h : ∀ tag ∈ t.asked ctx, ctx'.satisfies tag = ctx.satisfies tag) :
    t.asked ctx' = t.asked ctx ∧ t.holds ctx' = t.holds ctx := by
  cases t with
  | none => exact ⟨rfl, rfl⟩
  | one tag => exact ⟨rfl, h tag List.mem_cons_self⟩
  | pair system architecture =>
    have ha' : ctx'.satisfies architecture = ctx.satisfies architecture := by
      apply h
      by_cases ha : ctx.satisfies architecture = true <;> simp [asked, ha]
    by_cases ha : ctx.satisfies architecture = true
    · have hs' : ctx'.satisfies system = ctx.satisfies system := by
        apply h
        simp [asked, ha]
      simp only [asked, holds, ha', hs', and_self]
    · simp [asked, holds, ha', ha]

end NameTags

/-! ## The log -/

namespace BuildContext

theorem mem_distinctTags {log : List String} {tag : String} : tag ∈ distinctTags log ↔ tag ∈ log := by
  unfold distinctTags
  rw [SortedMap.mem_keys_ofList, List.map_map]
  simp

theorem distinctTags_pairwise (log : List String) : (distinctTags log).Pairwise (· < ·) :=
  SortedMap.keys_pairwise _

theorem distinctTags_congr {log log' : List String} (h : ∀ tag, tag ∈ log ↔ tag ∈ log') :
    distinctTags log = distinctTags log' := by
  apply (distinctTags_pairwise log).eq_of_mem_iff (distinctTags_pairwise log')
  intro tag
  rw [mem_distinctTags, mem_distinctTags, h]

end BuildContext

end PackageIndex
