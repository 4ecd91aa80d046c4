/-
  PackageIndex.Proofs.Constraint.Evaluation — what a constraint comes to.

  - `holds_tag`, `holds_not`, `holds_and`, `holds_or`: its value by its form.
  - `run_eval`: whoever is asked about the tags, evaluating gives this value and asks about
    every tag, in order, the ones behind an operator that is decided already included.
  - `holds_congr`: nothing but its tags makes a difference to its value.
-/

import PackageIndex.Context.Basic

namespace PackageIndex.Constraint

open BuildContext

variable {σ : Type} {ask : String → StateM σ Bool} {p q : String → Bool} {note : σ → String → σ}

/-! ## By form -/

theorem holds_tag (p : String → Bool) (name : String) : holds p (.tag name) = p name := rfl

theorem holds_not (p : String → Bool) (e : Constraint) : holds p (.not e) = !holds p e := rfl

/-- There is only one state here, so the operands are evaluated each for itself. -/
theorem evalAll_unit (p : String → Bool) (es : List Constraint) :
    ((evalAll (fun tag => (pure (p tag) : StateM Unit Bool)) es).run ()).1 = es.map (holds p) := by
  induction es with
  | nil => rfl
  | cons e es ih =>
    rw [List.map_cons, ← ih]
    rfl

theorem holds_and (p : String → Bool) (es : List Constraint) : holds p (.and es) = (es.map (holds p)).all id := by
  rw [← evalAll_unit]
  rfl

theorem holds_or (p : String → Bool) (es : List Constraint) : holds p (.or es) = (es.map (holds p)).any id := by
  rw [← evalAll_unit]
  rfl

/-! ## Asking -/

theorem run_evalAll_cons (e : Constraint) (es : List Constraint) (s : σ) :
    (evalAll ask (e :: es)).run s =
      let (answer, s) := (e.eval ask).run s
      let (answers, s) := (evalAll ask es).run s
      (answer :: answers, s) := rfl

mutual

/-- Every tag is asked about, also where the answer is decided. -/
theorem run_eval (h : ∀ tag s, (ask tag).run s = (p tag, note s tag)) :
    ∀ (e : Constraint) (s : σ), (e.eval ask).run s = (holds p e, e.tags.foldl note s)
  | .tag name, s => h name s
  | .not e, s => by
    simp only [eval, tags, StateT.run_bind, run_eval h e s, holds_not]
    rfl
  | .and es, s => by
    simp only [eval, tags, StateT.run_bind, run_evalAll h es s, holds_and]
    rfl
  | .or es, s => by
    simp only [eval, tags, StateT.run_bind, run_evalAll h es s, holds_or]
    rfl

theorem run_evalAll (h : ∀ tag s, (ask tag).run s = (p tag, note s tag)) :
    ∀ (es : List Constraint) (s : σ), (evalAll ask es).run s = (es.map (holds p), (tagsAll es).foldl note s)
  | [], _ => rfl
  | e :: es, s => by
    simp only [run_evalAll_cons, run_eval h e, run_evalAll h es, tagsAll, List.foldl_append, List.map_cons]

end

/-! ## Answers that agree -/

mutual

theorem holds_congr : ∀ {e : Constraint}, (∀ tag ∈ e.tags, p tag = q tag) → holds p e = holds q e
  | .tag name, h => h name List.mem_cons_self
  | .not e, h => by rw [holds_not, holds_not, holds_congr (e := e) h]
  | .and es, h => by
    have hes : es.map (holds p) = es.map (holds q) := map_holds_congr h
    rw [holds_and, holds_and, hes]
  | .or es, h => by
    have hes : es.map (holds p) = es.map (holds q) := map_holds_congr h
    rw [holds_or, holds_or, hes]

theorem map_holds_congr :
    ∀ {es : List Constraint}, (∀ tag ∈ tagsAll es, p tag = q tag) → es.map (holds p) = es.map (holds q)
  | [], _ => rfl
  | e :: es, h => by
    have he : ∀ tag ∈ e.tags, p tag = q tag := by
      intro tag ht
      exact h tag (List.mem_append_left _ ht)
    have hes : ∀ tag ∈ tagsAll es, p tag = q tag := by
      intro tag ht
      exact h tag (List.mem_append_right _ ht)
    rw [List.map_cons, List.map_cons, holds_congr he, map_holds_congr hes]

end

end PackageIndex.Constraint
