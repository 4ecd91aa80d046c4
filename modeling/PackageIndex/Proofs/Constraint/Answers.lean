/-
  PackageIndex.Proofs.Constraint.Answers — evaluating a constraint is asking about its tags.

  Whoever is asked may change with every question, and so answer the same tag in one way here
  and in another there. An answer then is about one occurrence of a tag, and `value` is what
  the answers about all occurrences make of a constraint.
  - `run_eval_eq`: evaluating asks about the tags in their order and comes to the value.
  - `value_map`: under a predicate this is the value that the constraint has under it.
  - `eval_asks_tags`: so every occurrence is asked about once, and nothing else is.
-/

import PackageIndex.Proofs.Asked
import PackageIndex.Proofs.Constraint.Evaluation

namespace PackageIndex.Constraint

open BuildContext

variable {σ : Type}

/-! ## The value under answers -/

mutual

/-- The value of a constraint under answers, one for each occurrence of a tag in it, in their order. -/
def value : Constraint → List Bool → Bool
  | .tag _, answers => answers.headD false
  | .not e, answers => !e.value answers
  | .and es, answers => (values es answers).all id
  | .or es, answers => (values es answers).any id

def values : List Constraint → List Bool → List Bool
  | [], _ => []
  | e :: es, answers => e.value (answers.take e.tags.length) :: values es (answers.drop e.tags.length)

end

theorem values_append {e : Constraint} {answers : List Bool} (h : answers.length = e.tags.length)
    (es : List Constraint) (more : List Bool) :
    values (e :: es) (answers ++ more) = e.value answers :: values es more := by
  rw [values, ← h, List.take_left, List.drop_left]

/-! ## Evaluating -/

section

variable (ask : String → StateM σ Bool)

mutual

theorem run_eval_eq : ∀ (e : Constraint) (s : σ),
    (e.eval ask).run s = (e.value (asked ask e.tags s).1, (asked ask e.tags s).2)
  | .tag name, s => by
    rw [tags, asked_cons]
    rfl
  | .not e, s => by
    rw [eval, tags, value, StateT.run_bind, run_eval_eq e s]
    rfl
  | .and es, s => by
    rw [eval, tags, value, StateT.run_bind, run_evalAll_eq es s]
    rfl
  | .or es, s => by
    rw [eval, tags, value, StateT.run_bind, run_evalAll_eq es s]
    rfl

theorem run_evalAll_eq : ∀ (es : List Constraint) (s : σ),
    (evalAll ask es).run s = (values es (asked ask (tagsAll es) s).1, (asked ask (tagsAll es) s).2)
  | [], _ => rfl
  | e :: es, s => by
    -- the operands behind `e` go on from the state that the answers about its tags leave
    have he := run_eval_eq e s
    have hes := run_evalAll_eq es (asked ask e.tags s).2
    rw [run_evalAll_cons, he]
    dsimp only
    rw [hes, tagsAll, asked_append, values_append (length_asked ask e.tags s)]

end

end

/-- Where no state is left behind, the value under the answers is the value under the predicate. -/
theorem value_map (p : String → Bool) (e : Constraint) : e.value (e.tags.map p) = holds p e := by
  have hasked : ∀ tags : List String, asked (fun tag => (pure (p tag) : StateM Unit Bool)) tags () = (tags.map p, ()) := by
    intro tags
    induction tags with
    | nil => rfl
    | cons tag tags ih =>
      rw [asked_cons]
      show (p tag :: (asked _ tags ()).1, (asked _ tags ()).2) = _
      rw [ih, List.map_cons]
  rw [holds, run_eval_eq, hasked]

/-- Whoever is asked and whatever state he is in, evaluating asks about each occurrence of a tag once and in order,
and about nothing else; it leaves the state that this leaves, and comes to the value under the answers it was given. -/
theorem eval_asks_tags (e : Constraint) (ask : String → StateM σ Bool) (s : σ) :
    ∃ (answers : List Bool) (t : σ), answers.length = e.tags.length ∧ (e.tags.mapM ask).run s = (answers, t) ∧
      (e.eval ask).run s = (e.value answers, t) ∧
      (e.eval (noting ask)).run (s, []) = (e.value answers, t, e.tags.zip answers) := by
  refine ⟨(asked ask e.tags s).1, (asked ask e.tags s).2, length_asked ask e.tags s, rfl, run_eval_eq ask e s, ?_⟩
  rw [run_eval_eq, asked_noting, List.nil_append]

/-- One who says yes to every other question is asked about all tags, the first answer of `or` being yes. -/
example : ((or [.tag "a", .and [.not (.tag "a"), .tag "b"], .and [], .or []]).eval
    (noting fun _ => modifyGet fun yes => (yes, !yes))).run (true, []) =
      (true, false, [("a", true), ("a", false), ("b", true)]) := rfl

end PackageIndex.Constraint
