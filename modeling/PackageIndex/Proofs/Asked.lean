/-
  PackageIndex.Proofs.Asked — questions asked one after another.

  Whoever is asked may change with every question. `asked` is what is answered, and the state
  that is left in the end.
  - `asked_append`: what is asked later goes on from the state that is left.
  - `asked_noting`: a list of what was asked and answered can be kept beside.
-/

import PackageIndex.Proofs.Fallible

namespace PackageIndex

variable {α β σ : Type}

def asked (ask : α → StateM σ β) (l : List α) (s : σ) : List β × σ := (l.mapM ask).run s

def noting (ask : α → StateM σ β) (a : α) : StateM (σ × List (α × β)) β := fun (s, calls) =>
  let (answer, s) := (ask a).run s
  (answer, s, calls ++ [(a, answer)])

section

variable (ask : α → StateM σ β)

theorem asked_cons (a : α) (l : List α) (s : σ) : asked ask (a :: l) s =
    (((ask a).run s).1 :: (asked ask l ((ask a).run s).2).1, (asked ask l ((ask a).run s).2).2) := by
  rw [asked, List.mapM_cons]
  rfl

theorem asked_append (l more : List α) (s : σ) : asked ask (l ++ more) s =
    ((asked ask l s).1 ++ (asked ask more (asked ask l s).2).1, (asked ask more (asked ask l s).2).2) := by
  rw [asked, List.mapM_append]
  rfl

theorem length_asked (l : List α) (s : σ) : (asked ask l s).1.length = l.length := by
  induction l generalizing s with
  | nil => rfl
  | cons a l ih => rw [asked_cons, List.length_cons, ih, List.length_cons]

/-- Putting the answers down changes none of them. -/
theorem asked_noting (l : List α) (s : σ) (calls : List (α × β)) :
    asked (noting ask) l (s, calls) = ((asked ask l s).1, (asked ask l s).2, calls ++ l.zip (asked ask l s).1) := by
  induction l generalizing s calls with
  | nil =>
    show ([], s, calls) = ([], s, calls ++ [])
    rw [List.append_nil]
  | cons a l ih =>
    have hnoting : (noting ask a).run (s, calls) =
      (((ask a).run s).1, ((ask a).run s).2, calls ++ [(a, ((ask a).run s).1)]) := rfl
    rw [asked_cons, asked_cons, hnoting, ih, List.zip_cons_cons, List.append_assoc, List.singleton_append]

end

/-- Where what is remembered makes no difference to an answer, all answers are what they are for themselves. -/
theorem asked_of_keeps {ε γ : Type} {P : σ → Prop} {ask : α → ExceptT ε (StateM σ) γ} {answer : α → Except ε γ}
    (h : ∀ a, Fallible.Keeps P (ask a) (answer a)) (l : List α) (s : σ) (hs : P s) :
    (asked (fun a => (ask a).run) l s).1 = l.map answer := by
  induction l generalizing s with
  | nil => rfl
  | cons a l ih =>
    obtain ⟨hanswer, hs'⟩ := h a s hs
    rw [asked_cons, ih _ hs', hanswer, List.map_cons]

end PackageIndex
