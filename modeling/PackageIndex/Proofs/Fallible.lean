/-
  PackageIndex.Proofs.Fallible — operations that answer or fail.

  - `bind_eq_ok`, `mapM_eq_ok`: what has to answer for the whole to answer.
  - `Keeps P m r`: with a state in `P`, `m` answers `r` and the state stays in `P`.
  - `Maps g r s`: `s` answers `g` of what `r` answers. It goes through compositions too.
  - `Alike g r s`: `g` makes the same of what `r` and `s` answer.
  - `Concurs good bad r s`: `r` is `s`, or fails where `s` need not. It goes through every
    composition (`Concurs.bind`), so a whole that reads many fields needs only a fact about
    each field.
-/

import Mathlib.Data.List.Forall2

namespace PackageIndex.Fallible

variable {α β ε ε' : Type}

/-! ## Answers -/

theorem bind_eq_ok {r : Except ε α} {f : α → Except ε β} {b : β} :
    (r >>= f) = .ok b ↔ ∃ a, r = .ok a ∧ f a = .ok b := by
  constructor
  · intro h
    cases r with
    | error e => cases h
    | ok a => exact ⟨a, rfl, h⟩
  · rintro ⟨a, rfl, h⟩
    exact h

theorem mapError_eq_ok {r : Except ε α} {f : ε → ε'} {a : α} : r.mapError f = .ok a ↔ r = .ok a := by
  cases r with
  | error e => exact ⟨fun h => (nomatch h), fun h => (nomatch h)⟩
  | ok b => exact ⟨fun h => by cases h; rfl, fun h => by cases h; rfl⟩

theorem mapError_eq_error {r : Except ε α} {f : ε → ε'} {e' : ε'} :
    r.mapError f = .error e' ↔ ∃ e, e' = f e ∧ r = .error e := by
  cases r with
  | error e =>
    constructor
    · intro h
      cases h
      exact ⟨e, rfl, rfl⟩
    · rintro ⟨e, rfl, h⟩
      cases h
      rfl
  | ok b => exact ⟨fun h => (nomatch h), fun ⟨_, _, h⟩ => (nomatch h)⟩

theorem mapError_bind (r : Except ε α) (g : α → Except ε β) (f : ε → ε') :
    (r >>= g).mapError f = r.mapError f >>= fun a => (g a).mapError f := by
  cases r <;> rfl

theorem map_eq_ok {r : Except ε α} {f : α → β} {b : β} : r.map f = .ok b ↔ ∃ a, r = .ok a ∧ f a = b := by
  constructor
  · intro h
    cases r with
    | error e => cases h
    | ok a => exact ⟨a, rfl, Except.ok.inj h⟩
  · rintro ⟨a, rfl, rfl⟩
    rfl

theorem toOption_eq_some {r : Except ε α} {a : α} : r.toOption = some a ↔ r = .ok a := by
  cases r with
  | error e => exact ⟨fun h => (nomatch h), fun h => (nomatch h)⟩
  | ok b => exact ⟨fun h => by cases h; rfl, fun h => by cases h; rfl⟩

theorem toOption_map_eq_some {r : Except ε α} {f : α → β} {b : β} :
    r.toOption.map f = some b ↔ ∃ a, r = .ok a ∧ f a = b := by
  constructor
  · intro h
    cases r with
    | error e => cases h
    | ok a => exact ⟨a, rfl, Option.some.inj h⟩
  · rintro ⟨a, rfl, rfl⟩
    rfl

theorem throw_if_eq_ok {c : Prop} [Decidable c] {e : ε} {f : α → Except ε β} {r : Except ε β} {b : β} :
    (if c then (throw e : Except ε α) >>= f else r) = .ok b ↔ ¬ c ∧ r = .ok b := by
  by_cases hc : c
  · rw [if_pos hc]
    exact ⟨fun h => (nomatch h), fun h => absurd hc h.1⟩
  · rw [if_neg hc]
    exact ⟨fun h => ⟨hc, h⟩, fun h => h.2⟩

theorem mapM_eq_ok {f : α → Except ε β} {l : List α} {bs : List β} :
    l.mapM f = .ok bs ↔ List.Forall₂ (fun a b => f a = .ok b) l bs := by
  induction l generalizing bs with
  | nil =>
    rw [List.forall₂_nil_left_iff]
    constructor
    · intro h; cases h; rfl
    · rintro rfl; rfl
  | cons a l ih =>
    rw [List.mapM_cons, bind_eq_ok, List.forall₂_cons_left_iff]
    constructor
    · rintro ⟨b, hb, h⟩
      obtain ⟨cs, hcs, h⟩ := bind_eq_ok.mp h
      cases h
      exact ⟨b, cs, hb, ih.mp hcs, rfl⟩
    · rintro ⟨b, cs, hb, hcs, rfl⟩
      refine ⟨b, hb, ?_⟩
      rw [ih.mpr hcs]
      rfl

theorem forall₂_of_mapM {f : α → Option β} {l : List α} {bs : List β} (h : l.mapM f = some bs) :
    List.Forall₂ (fun a b => f a = some b) l bs := by
  induction l generalizing bs with
  | nil =>
    cases h
    exact .nil
  | cons a l ih =>
    rw [List.mapM_cons, Option.bind_eq_bind, Option.bind_eq_some_iff] at h
    obtain ⟨b, hb, h⟩ := h
    obtain ⟨more, hmore, h⟩ := Option.bind_eq_some_iff.mp h
    cases h
    exact .cons hb (ih hmore)

theorem exists_mapM {f : α → Except ε β} {l : List α} (h : ∀ a ∈ l, ∃ b, f a = .ok b) : ∃ bs, l.mapM f = .ok bs := by
  induction l with
  | nil => exact ⟨[], rfl⟩
  | cons a l ih =>
    obtain ⟨b, hb⟩ := h a List.mem_cons_self
    obtain ⟨bs, hbs⟩ := ih fun a' ha' => h a' (List.mem_cons_of_mem a ha')
    exact ⟨b :: bs, mapM_eq_ok.mpr (.cons hb (mapM_eq_ok.mp hbs))⟩

theorem exists_of_forall₂ {R : α → β → Prop} {l : List α} {k : List β} (h : List.Forall₂ R l k) {b : β}
    (hb : b ∈ k) : ∃ a ∈ l, R a b := by
  induction h with
  | nil => cases hb
  | cons hab _ ih =>
    rcases List.mem_cons.mp hb with rfl | hb
    · exact ⟨_, List.mem_cons_self, hab⟩
    · obtain ⟨a, ha, hab⟩ := ih hb
      exact ⟨a, List.mem_cons_of_mem _ ha, hab⟩

/-! ## Answers beside a state -/

section

variable {σ : Type} {m : ExceptT ε (StateM σ) α}

theorem run_bind (m : ExceptT ε (StateM σ) α) (f : α → ExceptT ε (StateM σ) β) (s : σ) :
    (m >>= f).run.run s = match m.run.run s with
      | (.ok a, s) => (f a).run.run s
      | (.error e, s) => (.error e, s) := by
  show (ExceptT.bind m f).run.run s = _
  simp only [ExceptT.bind, ExceptT.run, ExceptT.mk, StateT.run, bind, StateT.bind]
  cases m s with
  | mk r s => cases r <;> rfl

theorem run_tryCatch (m : ExceptT ε (StateM σ) α) (handle : ε → ExceptT ε (StateM σ) α) (s : σ) :
    (tryCatch m handle).run.run s = match m.run.run s with
      | (.ok a, s) => (.ok a, s)
      | (.error e, s) => (handle e).run.run s := by
  show (ExceptT.tryCatch m handle).run.run s = _
  simp only [ExceptT.tryCatch, ExceptT.run, ExceptT.mk, StateT.run, bind, StateT.bind]
  cases m s with
  | mk r s => cases r <;> rfl

theorem run_liftM (r : Except ε α) (s : σ) : (liftM r : ExceptT ε (StateM σ) α).run.run s = (r, s) := by
  cases r <;> rfl

/-- From every state in `P`, `m` answers `r` and leaves a state in `P`. -/
def Keeps (P : σ → Prop) (m : ExceptT ε (StateM σ) α) (r : Except ε α) : Prop :=
  ∀ s, P s → (m.run.run s).1 = r ∧ P (m.run.run s).2

theorem keeps_liftM (P : σ → Prop) (r : Except ε α) : Keeps P (liftM r) r := by
  intro s hs
  rw [run_liftM]
  exact ⟨rfl, hs⟩

theorem Keeps.bind {P : σ → Prop} {r : Except ε α} {f : α → ExceptT ε (StateM σ) β} {g : α → Except ε β}
    (hm : Keeps P m r) (hf : ∀ a, r = .ok a → Keeps P (f a) (g a)) : Keeps P (m >>= f) (r >>= g) := by
  intro s hs
  obtain ⟨h1, h2⟩ := hm s hs
  rw [run_bind]
  rcases hr : m.run.run s with ⟨answer, t⟩
  rw [hr] at h1 h2
  subst h1
  cases answer with
  | error e => exact ⟨rfl, h2⟩
  | ok a => exact hf a rfl t h2

theorem run_adapt_eq_ok {f : ε → ε'} {s s' : σ} {a : α} :
    (m.adapt f).run.run s = (.ok a, s') ↔ m.run.run s = (.ok a, s') := by
  have hrun : (m.adapt f).run.run s = match m.run.run s with
      | (r, s) => (r.mapError f, s) := rfl
  rw [hrun]
  rcases m.run.run s with ⟨r, t⟩
  cases r with
  | error e => exact ⟨fun h => (nomatch h), fun h => (nomatch h)⟩
  | ok b => exact ⟨fun h => by cases h; rfl, fun h => by cases h; rfl⟩

theorem run_bind_eq_ok {f : α → ExceptT ε (StateM σ) β} {s s' : σ} {b : β} :
    (m >>= f).run.run s = (.ok b, s') ↔
      ∃ a t, m.run.run s = (.ok a, t) ∧ (f a).run.run t = (.ok b, s') := by
  rw [run_bind]
  constructor
  · intro h
    rcases hm : m.run.run s with ⟨r, t⟩
    rw [hm] at h
    cases r with
    | error e => cases h
    | ok a => exact ⟨a, t, rfl, h⟩
  · rintro ⟨a, t, hm, hf⟩
    rw [hm]
    exact hf

theorem run_throw_if_eq_ok {c : Prop} [Decidable c] {e : ε} {f : α → ExceptT ε (StateM σ) β} {m' : ExceptT ε (StateM σ) β}
    {s s' : σ} {b : β} :
    (if c then (throw e : ExceptT ε (StateM σ) α) >>= f else m').run.run s = (.ok b, s') ↔
      ¬ c ∧ m'.run.run s = (.ok b, s') := by
  by_cases hc : c
  · rw [if_pos hc]
    exact ⟨fun h => (nomatch h), fun h => absurd hc h.1⟩
  · rw [if_neg hc]
    exact ⟨fun h => ⟨hc, h⟩, fun h => h.2⟩

theorem run_liftM_bind_eq_ok {r : Except ε α} {f : α → ExceptT ε (StateM σ) β} {s s' : σ} {b : β} :
    ((liftM r : ExceptT ε (StateM σ) α) >>= f).run.run s = (.ok b, s') ↔
      ∃ a, r = .ok a ∧ (f a).run.run s = (.ok b, s') := by
  rw [run_bind_eq_ok]
  constructor
  · rintro ⟨a, t, hr, hf⟩
    rw [run_liftM] at hr
    cases hr
    exact ⟨a, rfl, hf⟩
  · rintro ⟨a, rfl, hf⟩
    exact ⟨a, s, rfl, hf⟩

end

/-! ## The answer changed -/

/-- `s` answers what `g` makes of the answer of `r`, and fails where `r` does and for the same. -/
def Maps (g : α → β) (r : Except ε α) (s : Except ε β) : Prop := s = r.map g

section

variable {γ δ : Type} {g : α → β}

theorem maps_ok (g : α → β) (a : α) : Maps g (.ok a : Except ε α) (.ok (g a)) := rfl

theorem maps_error (g : α → β) (e : ε) : Maps g (.error e : Except ε α) (.error e) := rfl

theorem eq_of_maps_id {r s : Except ε α} (h : Maps id r s) : s = r := by
  cases h
  cases r <;> rfl

theorem Maps.bind {r : Except ε α} {s : Except ε β} (h : Maps g r s) {g' : γ → δ} {f : α → Except ε γ} {f' : β → Except ε δ}
    (hf : ∀ a, Maps g' (f a) (f' (g a))) : Maps g' (r >>= f) (s >>= f') := by
  cases h
  cases r with
  | error e => exact maps_error g' e
  | ok a => exact hf a

/-- Both go on from the same answer. -/
theorem maps_bind (r : Except ε γ) {f : γ → Except ε α} {f' : γ → Except ε β} (hf : ∀ c, Maps g (f c) (f' c)) :
    Maps g (r >>= f) (r >>= f') := by
  cases r with
  | error e => exact maps_error g e
  | ok c => exact hf c

theorem Maps.ite {c : Prop} [Decidable c] {r r' : Except ε α} {s s' : Except ε β} (h : c → Maps g r s)
    (h' : ¬ c → Maps g r' s') : Maps g (if c then r else r') (if c then s else s') := by
  by_cases hc : c
  · rw [if_pos hc, if_pos hc]
    exact h hc
  · rw [if_neg hc, if_neg hc]
    exact h' hc

theorem Maps.mapError {r : Except ε α} {s : Except ε β} (h : Maps g r s) (f : ε → ε') :
    Maps g (r.mapError f) (s.mapError f) := by
  cases h
  cases r <;> rfl

end

/-! ## Answers alike -/

/-- Both answer the same as far as `g` tells, or fail for the same. -/
def Alike {γ : Type} (g : α → γ) (r s : Except ε α) : Prop := r.map g = s.map g

section

variable {γ δ : Type} {g : α → γ} {g' : β → δ}

theorem alike_ok {a b : α} (h : g a = g b) : Alike g (.ok a : Except ε α) (.ok b) := congrArg Except.ok h

theorem Alike.cases {r s : Except ε α} (h : Alike g r s) :
    (∃ e, r = .error e ∧ s = .error e) ∨ ∃ a b, r = .ok a ∧ s = .ok b ∧ g a = g b := by
  unfold Alike at h
  cases r with
  | error e =>
    cases s with
    | error e' => cases h; exact Or.inl ⟨e, rfl, rfl⟩
    | ok b => cases h
  | ok a =>
    cases s with
    | error e => cases h
    | ok b => exact Or.inr ⟨a, b, rfl, rfl, Except.ok.inj h⟩

theorem Alike.bind {r s : Except ε α} (h : Alike g r s) {f f' : α → Except ε β}
    (hf : ∀ a b, g a = g b → Alike g' (f a) (f' b)) : Alike g' (r >>= f) (s >>= f') := by
  rcases h.cases with ⟨e, rfl, rfl⟩ | ⟨a, b, rfl, rfl, hab⟩
  · rfl
  · exact hf a b hab

/-- Both go on from the same answer. -/
theorem alike_bind (r : Except ε α) {f f' : α → Except ε β} (hf : ∀ a, Alike g' (f a) (f' a)) :
    Alike g' (r >>= f) (r >>= f') := by
  cases r with
  | error e => rfl
  | ok a => exact hf a

theorem Alike.ite {c : Prop} [Decidable c] {r r' s s' : Except ε α} (h : c → Alike g r s) (h' : ¬ c → Alike g r' s') :
    Alike g (if c then r else r') (if c then s else s') := by
  by_cases hc : c
  · rw [if_pos hc, if_pos hc]
    exact h hc
  · rw [if_neg hc, if_neg hc]
    exact h' hc

theorem Alike.map {r s : Except ε α} (h : Alike g r s) {f f' : α → β} (hf : ∀ a b, g a = g b → g' (f a) = g' (f' b)) :
    Alike g' (r.map f) (s.map f') := by
  rcases h.cases with ⟨e, rfl, rfl⟩ | ⟨a, b, rfl, rfl, hab⟩
  · rfl
  · exact alike_ok (hf a b hab)

theorem Alike.mapError {r s : Except ε α} (h : Alike g r s) (f : ε → ε') : Alike g (r.mapError f) (s.mapError f) := by
  rcases h.cases with ⟨e, rfl, rfl⟩ | ⟨a, b, rfl, rfl, hab⟩
  · rfl
  · exact alike_ok hab

end

/-! ## The same answer, or none -/

def FailsBy (good : ε → Prop) (r : Except ε α) : Prop := ∀ e, r = .error e → good e

/-- `r` is `s`, which fails for a reason in `good` if at all; or it fails for one in `bad`. -/
def Concurs (good bad : ε → Prop) (r s : Except ε α) : Prop := r = s ∧ FailsBy good r ∨ ∃ e, bad e ∧ r = .error e

variable {good bad : ε → Prop} {good' bad' : ε' → Prop}

theorem concurs_ok (a : α) : Concurs good bad (.ok a : Except ε α) (.ok a) := Or.inl ⟨rfl, fun _ h => nomatch h⟩

theorem concurs_same {e : ε} (h : good e) : Concurs good bad (.error e : Except ε α) (.error e) :=
  Or.inl ⟨rfl, fun _ he => by cases he; exact h⟩

theorem concurs_error {e : ε} (h : bad e) (s : Except ε α) : Concurs good bad (.error e) s := Or.inr ⟨e, h, rfl⟩

theorem Concurs.of_eq {r s : Except ε α} (h : r = s) : Concurs (fun _ => True) bad r s := Or.inl ⟨h, fun _ _ => trivial⟩

/-- Where every reason to fail is admitted, only answers have to be the same. -/
theorem concurs_of_ok {r s : Except ε α} (h : ∀ a, r = .ok a → s = .ok a) : Concurs good (fun _ => True) r s := by
  cases r with
  | error e => exact concurs_error trivial s
  | ok a =>
    rw [h a rfl]
    exact concurs_ok a

theorem Concurs.ite {c : Prop} [Decidable c] {r s r' s' : Except ε α} (h : c → Concurs good bad r s)
    (h' : ¬ c → Concurs good bad r' s') : Concurs good bad (if c then r else r') (if c then s else s') := by
  by_cases hc : c
  · rw [if_pos hc, if_pos hc]
    exact h hc
  · rw [if_neg hc, if_neg hc]
    exact h' hc

theorem Concurs.bind {r s : Except ε α} {f g : α → Except ε β} (h : Concurs good bad r s)
    (hf : ∀ a, Concurs good bad (f a) (g a)) : Concurs good bad (r >>= f) (s >>= g) := by
  rcases h with ⟨rfl, hr⟩ | ⟨e, he, rfl⟩
  · cases r with
    | error e => exact concurs_same (hr e rfl)
    | ok a => exact hf a
  · exact concurs_error he _

theorem Concurs.mapError {r s : Except ε α} (h : Concurs good bad r s) {f : ε → ε'} (hg : ∀ e, good e → good' (f e))
    (hb : ∀ e, bad e → bad' (f e)) : Concurs good' bad' (r.mapError f) (s.mapError f) := by
  rcases h with ⟨rfl, hr⟩ | ⟨e, he, rfl⟩
  · cases r with
    | error e => exact concurs_same (hg e (hr e rfl))
    | ok a => exact concurs_ok a
  · exact concurs_error (hb e he) _

theorem Concurs.mapM {γ δ : Type} {R : γ → δ → Prop} {f : γ → Except ε β} {g : δ → Except ε β} {l : List γ} {k : List δ}
    (h : List.Forall₂ R l k) (hf : ∀ c d, R c d → Concurs good bad (f c) (g d)) :
    Concurs good bad (l.mapM f) (k.mapM g) := by
  induction h with
  | nil => exact concurs_ok _
  | cons hab _ ih =>
    rw [List.mapM_cons, List.mapM_cons]
    exact (hf _ _ hab).bind fun b => ih.bind fun bs => concurs_ok _

end PackageIndex.Fallible
