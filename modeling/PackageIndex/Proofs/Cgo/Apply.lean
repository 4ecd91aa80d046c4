/-
  PackageIndex.Proofs.Cgo.Apply — what a comment adds to flags, line by line.

  A line comes to flags that it asks for, or to a fault, and neither hangs on the flags that
  are there (`applyLine_eq`). So flags only grow, two comments one under the other are taken
  in one after the other, and a fault leaves what the lines above it have asked for.

  - `comesTo_iff`: the ways in which a line may end, with one case for each check.
  - `apply_eq`: taking a comment into flags adds what it asks for on its own.
  - `apply_line_by_line`: all of these.
-/

import PackageIndex.Cgo.Apply
import PackageIndex.Proofs.Text.Parts

namespace PackageIndex.Cgo.Flags

/-! ## One line -/

/-- The line is a directive of these parts. -/
def HasParts (line : List Char) (conditions : List (List Char)) (verb args : List Char) : Prop :=
  ∃ text head, directive? line = some text ∧ cutAt? [':'] text = some (head, args) ∧ words head = conditions ++ [verb]

def Met (ctx : BuildContext) (conditions : List (List Char)) : Prop :=
  conditions = [] ∨ ∃ c ∈ conditions, ctx.satisfiesText (String.ofList c) = true

/-- What a line comes to: the flags that it asks for, or its fault. -/
inductive ComesTo (ctx : BuildContext) (dir : String) (line : List Char) : Except LineError Flags → Prop
  | other (h : directive? line = none) : ComesTo ctx dir line (.ok {})
  | noColon {text : List Char} (h : directive? line = some text) (hcut : cutAt? [':'] text = none) :
      ComesTo ctx dir line (.error (.line line))
  | noVerb {text head args : List Char} (h : directive? line = some text) (hcut : cutAt? [':'] text = some (head, args))
      (hwords : words head = []) : ComesTo ctx dir line (.error (.line line))
  | unmet {conditions : List (List Char)} {verb args : List Char} (h : HasParts line conditions verb args)
      (hunmet : ¬ Met ctx conditions) : ComesTo ctx dir line (.ok {})
  | openQuote {conditions : List (List Char)} {verb args : List Char} (h : HasParts line conditions verb args)
      (hmet : Met ctx conditions) (hargs : shellWords? args = none) : ComesTo ctx dir line (.error (.line line))
  | argument {conditions before after : List (List Char)} {verb args arg : List Char} (h : HasParts line conditions verb args)
      (hmet : Met ctx conditions) (hargs : shellWords? args = some (before ++ arg :: after))
      (hbefore : ∀ a ∈ before, (expand dir.toList a).2 = true) (harg : (expand dir.toList arg).2 = false) :
      ComesTo ctx dir line (.error (.argument (expand dir.toList arg).1))
  | noList {conditions args' : List (List Char)} {verb args : List Char} (h : HasParts line conditions verb args)
      (hmet : Met ctx conditions) (hargs : shellWords? args = some args') (hall : ∀ a ∈ args', (expand dir.toList a).2 = true)
      (hverb : Verb.ofName? verb = none) : ComesTo ctx dir line (.error (.verb line))
  | asks {conditions args' : List (List Char)} {verb args : List Char} {v : Verb} (h : HasParts line conditions verb args)
      (hmet : Met ctx conditions) (hargs : shellWords? args = some args') (hall : ∀ a ∈ args', (expand dir.toList a).2 = true)
      (hverb : Verb.ofName? verb = some v) : ComesTo ctx dir line (.ok (v.flags dir (args'.map fun a => (expand dir.toList a).1)))

variable {ctx : BuildContext} {filename dir : String} {line : List Char} {lines : List (List Char)} {f : Flags}

/-! ### Arguments -/

theorem expandAll_of_all {args : List (List Char)} (h : ∀ a ∈ args, (expand dir.toList a).2 = true) :
    expandAll dir args = .ok (args.map fun a => (expand dir.toList a).1) := by
  induction args with
  | nil => rfl
  | cons arg args ih =>
    obtain ⟨harg, hargs⟩ := List.forall_mem_cons.mp h
    simp only [expandAll, harg, if_true, ih hargs]
    rfl

/-- The first argument that may not be used is the fault. -/
theorem expandAll_of_first {before after : List (List Char)} {arg : List Char}
    (hbefore : ∀ a ∈ before, (expand dir.toList a).2 = true) (harg : (expand dir.toList arg).2 = false) :
    expandAll dir (before ++ arg :: after) = .error (.argument (expand dir.toList arg).1) := by
  induction before with
  | nil => simp only [List.nil_append, expandAll, harg, Bool.false_eq_true, if_false]
  | cons a before ih =>
    obtain ⟨ha, hbefore⟩ := List.forall_mem_cons.mp hbefore
    simp only [List.cons_append, expandAll, ha, if_true, ih hbefore]
    rfl

/-- Either all are in order or there is a first one that is not. -/
theorem all_or_first {α : Type} (p : α → Bool) (l : List α) :
    (∀ a ∈ l, p a = true) ∨ ∃ before a after, l = before ++ a :: after ∧ (∀ b ∈ before, p b = true) ∧ p a = false := by
  induction l with
  | nil => exact .inl (List.forall_mem_nil _)
  | cons a l ih =>
    cases ha : p a with
    | false => exact .inr ⟨[], a, l, rfl, List.forall_mem_nil _, ha⟩
    | true =>
      rcases ih with hall | ⟨before, b, after, rfl, hbefore, hb⟩
      · exact .inl (List.forall_mem_cons.mpr ⟨ha, hall⟩)
      · exact .inr ⟨a :: before, b, after, rfl, List.forall_mem_cons.mpr ⟨ha, hbefore⟩, hb⟩

/-! ### Checks -/

theorem met_iff {conditions : List (List Char)} : Met ctx conditions ↔
    ¬ (conditions ≠ [] ∧ ¬ conditions.any (fun c => ctx.satisfiesText (String.ofList c)) = true) := by
  unfold Met
  rw [not_and_or, not_ne_iff, not_not, List.any_eq_true]

/-- What is left to check once a directive is in its parts. -/
theorem request_of_parts {conditions : List (List Char)} {verb args : List Char} (h : HasParts line conditions verb args) :
    (¬ Met ctx conditions → request ctx dir line = .ok none) ∧
      (Met ctx conditions → request ctx dir line = do
        let some args := shellWords? args | .error (.line line)
        let args ← expandAll dir args
        let some verb := Verb.ofName? verb | .error (.verb line)
        return some (verb, args)) := by
  obtain ⟨text, head, hline, hcut, hwords⟩ := h
  unfold request
  simp only [hline, hcut, hwords, List.getLast?_append, List.getLast?_singleton, Option.some_or, List.dropLast_concat]
  constructor
  · intro hunmet
    rw [met_iff, not_not] at hunmet
    exact if_pos hunmet
  · intro hmet
    rw [met_iff] at hmet
    exact if_neg hmet

theorem ofLine_of_comesTo {r : Except LineError Flags} (h : ComesTo ctx dir line r) : ofLine ctx dir line = r := by
  unfold ofLine
  cases h with
  | other h =>
    simp only [request, h]
    rfl
  | noColon h hcut =>
    simp only [request, h, hcut]
    rfl
  | noVerb h hcut hwords =>
    simp only [request, h, hcut, hwords, List.getLast?_nil]
    rfl
  | unmet h hunmet =>
    rw [(request_of_parts h).1 hunmet]
    rfl
  | openQuote h hmet hargs =>
    rw [(request_of_parts h).2 hmet]
    simp only [hargs]
    rfl
  | argument h hmet hargs hbefore harg =>
    rw [(request_of_parts h).2 hmet]
    simp only [hargs, expandAll_of_first hbefore harg]
    rfl
  | noList h hmet hargs hall hverb =>
    rw [(request_of_parts h).2 hmet]
    simp only [hargs, expandAll_of_all hall, hverb]
    rfl
  | asks h hmet hargs hall hverb =>
    rw [(request_of_parts h).2 hmet]
    simp only [hargs, expandAll_of_all hall, hverb]
    rfl

/-- Every line ends in one of these ways. -/
theorem exists_comesTo (ctx : BuildContext) (dir : String) (line : List Char) : ∃ r, ComesTo ctx dir line r := by
  cases hline : directive? line with
  | none => exact ⟨_, .other hline⟩
  | some text =>
    cases hcut : cutAt? [':'] text with
    | none => exact ⟨_, .noColon hline hcut⟩
    | some cut =>
      obtain ⟨head, args⟩ := cut
      rcases List.eq_nil_or_concat (words head) with hwords | ⟨conditions, verb, hwords⟩
      · exact ⟨_, .noVerb hline hcut hwords⟩
      · have hparts : HasParts line conditions verb args := ⟨text, head, hline, hcut, by rw [hwords, List.concat_eq_append]⟩
        by_cases hmet : Met ctx conditions
        · cases hargs : shellWords? args with
          | none => exact ⟨_, .openQuote hparts hmet hargs⟩
          | some args' =>
            rcases all_or_first (fun a => (expand dir.toList a).2) args' with hall | ⟨before, arg, after, rfl, hbefore, harg⟩
            · cases hverb : Verb.ofName? verb with
              | none => exact ⟨_, .noList hparts hmet hargs hall hverb⟩
              | some v => exact ⟨_, .asks hparts hmet hargs hall hverb⟩
            · exact ⟨_, .argument hparts hmet hargs hbefore harg⟩
        · exact ⟨_, .unmet hparts hmet⟩

theorem comesTo_iff {r : Except LineError Flags} : ComesTo ctx dir line r ↔ ofLine ctx dir line = r := by
  refine ⟨ofLine_of_comesTo, ?_⟩
  rintro rfl
  obtain ⟨r, hr⟩ := exists_comesTo ctx dir line
  rwa [ofLine_of_comesTo hr]

/-! ## Flags that grow -/

/-- To add to one list is to append flags that are empty but for it. -/
theorem append_flags (f : Flags) (verb : Verb) (args : List (List Char)) :
    f ++ verb.flags dir args = f.extend verb (verb.strings dir args) := by
  cases verb <;> (show Flags.mk _ _ _ _ _ _ = _; simp [extend, Verb.flags])

/-- What a line adds, or its fault, does not hang on the flags that are there. -/
theorem applyLine_eq (ctx : BuildContext) (dir : String) (f : Flags) (line : List Char) :
    applyLine ctx dir f line = (ofLine ctx dir line).map (f ++ ·) := by
  unfold applyLine ofLine
  rcases request ctx dir line with e | _ | ⟨verb, args⟩
  · rfl
  · exact congrArg Except.ok (append_empty f).symm
  · exact congrArg Except.ok (append_flags f verb args).symm

/-! ## Lines -/

theorem applyLines_eq (ctx : BuildContext) (dir : String) (f : Flags) (lines : List (List Char)) :
    applyLines ctx dir f lines = (f ++ (ofLines ctx dir lines).1, (ofLines ctx dir lines).2) := by
  induction lines generalizing f with
  | nil => rw [applyLines, ofLines, append_empty]
  | cons line lines ih =>
    rw [applyLines, ofLines, applyLine_eq]
    cases ofLine ctx dir line with
    | error e => simp only [Except.map, append_empty]
    | ok asked => simp only [Except.map, ih, append_assoc]

theorem applyLines_append (ctx : BuildContext) (dir : String) (f : Flags) (lines more : List (List Char)) :
    applyLines ctx dir f (lines ++ more) =
      match applyLines ctx dir f lines with
      | (g, none) => applyLines ctx dir g more
      | (g, some e) => (g, some e) := by
  induction lines generalizing f with
  | nil => rfl
  | cons line lines ih =>
    rw [List.cons_append, applyLines, applyLines]
    cases applyLine ctx dir f line with
    | error e => rfl
    | ok g => exact ih g

/-- What lines above the first fault ask for is in the flags, and nothing else. -/
theorem applyLines_asked (ctx : BuildContext) (dir : String) (f : Flags) (lines : List (List Char)) :
    ∃ before after asked, lines = before ++ after ∧
      List.Forall₂ (fun line flags => ComesTo ctx dir line (.ok flags)) before asked ∧
      (applyLines ctx dir f lines).1 = asked.foldl (· ++ ·) f ∧
      match (applyLines ctx dir f lines).2 with
      | none => after = []
      | some e => ∃ line more, after = line :: more ∧ ComesTo ctx dir line (.error e) := by
  induction lines generalizing f with
  | nil => exact ⟨[], [], [], rfl, .nil, rfl, rfl⟩
  | cons line lines ih =>
    rw [applyLines, applyLine_eq]
    cases hline : ofLine ctx dir line with
    | error e => exact ⟨[], line :: lines, [], rfl, .nil, rfl, line, lines, rfl, comesTo_iff.mpr hline⟩
    | ok flags =>
      obtain ⟨before, after, asked, rfl, hasked, hflags, hend⟩ := ih (f ++ flags)
      exact ⟨line :: before, after, flags :: asked, rfl, .cons (comesTo_iff.mpr hline) hasked, hflags, hend⟩

/-! ## Comments -/

/-- What a comment adds to flags is what it asks for on its own. -/
theorem apply_eq (ctx : BuildContext) (filename dir : String) (f : Flags) (preamble : String) :
    apply ctx filename dir f preamble =
      (f ++ (ofPreamble ctx dir preamble).1, (ofPreamble ctx dir preamble).2.map (LineError.message filename)) := by
  unfold apply ofPreamble
  rw [applyLines_eq]

theorem apply_append (ctx : BuildContext) (filename dir : String) (f : Flags) (p q : String) :
    apply ctx filename dir f (p ++ "\n" ++ q) =
      match apply ctx filename dir f p with
      | (g, none) => apply ctx filename dir g q
      | (g, some message) => (g, some message) := by
  have hlines : (p ++ "\n" ++ q).toList.splitOn '\n' = p.toList.splitOn '\n' ++ q.toList.splitOn '\n' := by
    rw [String.toList_append, String.toList_append, List.append_assoc]
    exact List.splitOn_append_cons_self ..
  unfold apply
  rw [hlines, applyLines_append]
  rcases applyLines ctx dir f (p.toList.splitOn '\n') with ⟨g, fault⟩
  cases fault <;> rfl

/-- A comment only adds to flags, and what it adds does not hang on them. Of two comments one under the other
the second is taken in after the first, unless that has a fault. What was added is what the lines ask for, up to
the first fault if there is one, of which nothing is added. -/
theorem apply_line_by_line (ctx : BuildContext) (filename dir : String) :
    (∀ f p, apply ctx filename dir f p = (f ++ (apply ctx filename dir {} p).1, (apply ctx filename dir {} p).2)) ∧
    (∀ f p q, apply ctx filename dir f (p ++ "\n" ++ q) =
      match apply ctx filename dir f p with
      | (g, none) => apply ctx filename dir g q
      | (g, some message) => (g, some message)) ∧
    ∀ f p, ∃ before after asked, p.toList.splitOn '\n' = before ++ after ∧
      List.Forall₂ (fun line flags => ComesTo ctx dir line (.ok flags)) before asked ∧
      (apply ctx filename dir f p).1 = asked.foldl (· ++ ·) f ∧
      match (apply ctx filename dir f p).2 with
      | none => after = []
      | some message => ∃ line more e, after = line :: more ∧ ComesTo ctx dir line (.error e) ∧ message = e.message filename := by
  refine ⟨fun f p => ?_, apply_append ctx filename dir, fun f p => ?_⟩
  · rw [apply_eq, apply_eq, empty_append]
  · obtain ⟨before, after, asked, hlines, hasked, hflags, hend⟩ := applyLines_asked ctx dir f (p.toList.splitOn '\n')
    refine ⟨before, after, asked, hlines, hasked, hflags, ?_⟩
    unfold apply
    cases hrun : applyLines ctx dir f (p.toList.splitOn '\n') with
    | mk g fault =>
      rw [hrun] at hend
      cases fault with
      | none => exact hend
      | some e =>
        obtain ⟨line, more, hafter, hline⟩ := hend
        exact ⟨line, more, e, hafter, hline, rfl⟩

/-- The second line has an argument in order before the one that is not, and adds neither. -/
example : apply (.ofTarget "linux" "amd64") "a.go" "/p" { ldflags := ["-lm"] }
    "#cgo CFLAGS: -Iinc\n#cgo linux LDFLAGS: -lz -l|\n#cgo CFLAGS: -Dx" =
      ({ cflags := ["-I/p/inc"], ldflags := ["-lm"] }, some "a.go: malformed #cgo argument: -l|") := by decide +kernel

end PackageIndex.Cgo.Flags
