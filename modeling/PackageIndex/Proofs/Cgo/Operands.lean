/-
  PackageIndex.Proofs.Cgo.Operands — the paths among arguments.

  A path stands alone behind the flag `-I` or `-L`, or is joined to it. Whether a flag is one
  hangs on what comes before it, since it can stand where a path is expected: the second of
  two flags is the path of the first. `followsFlag` tells that from the arguments before.
  - `getElem?_absolutePaths`: each argument is made absolute for itself, once it is known what it
    follows.
  - `followsFlag_absolutePaths`: flags stay flags, and what is no flag does not become one.
  - `absolutePaths_operands`: so exactly the paths are changed, and no second time.
-/

import PackageIndex.Proofs.Cgo.Safety

namespace PackageIndex.Cgo

/-! ## Operands -/

def IsFlag (s : List Char) : Prop := s = ['-', 'I'] ∨ s = ['-', 'L']

instance (s : List Char) : Decidable (IsFlag s) := inferInstanceAs (Decidable (_ ∨ _))

/-- Whether the argument at an index is the path of the flag before it. That is one only where no path is expected
in its own place; `afterFlag` says if one is expected in the first. -/
def followsFlag (afterFlag : Bool) (args : List (List Char)) : Nat → Bool
  | 0 => afterFlag
  | i + 1 => args[i]?.any (IsFlag ·) && !followsFlag afterFlag args i

/-- The argument at an index is a path behind `option`, which is empty where the flag is the argument before. -/
def OperandAt (args : List (List Char)) (i : Nat) (option path : List Char) : Prop :=
  args[i]? = some (option ++ path) ∧ if followsFlag false args i then option = [] else IsFlag option ∧ path ≠ []

instance (args : List (List Char)) (i : Nat) (option path : List Char) : Decidable (OperandAt args i option path) :=
  inferInstanceAs (Decidable (_ ∧ ite _ _ _))

theorem IsFlag.length_eq {s : List Char} (h : IsFlag s) : s.length = 2 := by
  rcases h with rfl | rfl <;> rfl

/-- What follows the first argument follows it as a flag, or an argument behind it. -/
theorem followsFlag_cons (afterFlag : Bool) (arg : List Char) (args : List (List Char)) (i : Nat) :
    followsFlag afterFlag (arg :: args) (i + 1) = followsFlag (decide (IsFlag arg) && !afterFlag) args i := by
  induction i with
  | zero => rfl
  | succ i ih => rw [followsFlag, ih, List.getElem?_cons_succ, followsFlag]

/-! ## One argument -/

variable {dir : String} {option path arg : List Char} {afterFlag : Bool} {args : List (List Char)}

theorem ofArg_eq_flag : PathOption.ofArg arg = .flag ↔ IsFlag arg := by
  unfold PathOption.ofArg IsFlag
  split
  · rename_i c path
    by_cases hc : c = 'I' ∨ c = 'L' <;> by_cases hpath : path = [] <;> simp_all
  · rename_i hshape
    constructor
    · nofun
    · rintro (rfl | rfl)
      · exact absurd rfl (hshape 'I' [])
      · exact absurd rfl (hshape 'L' [])

theorem ofArg_eq_joined : PathOption.ofArg arg = .joined option path ↔ arg = option ++ path ∧ IsFlag option ∧ path ≠ [] := by
  constructor
  · intro h
    obtain ⟨harg, hpath, hoption⟩ := eq_of_joined h
    exact ⟨harg, hoption, hpath⟩
  · rintro ⟨rfl, rfl | rfl, hpath⟩
    · exact if_neg hpath
    · exact if_neg hpath

/-- An argument has a path behind a flag, or it is none that is taken apart. -/
theorem joined_or_other (arg : List Char) :
    (∃ option path, arg = option ++ path ∧ IsFlag option ∧ path ≠ []) ∨
      ∀ option path, PathOption.ofArg arg ≠ .joined option path := by
  by_cases hjoined : ∃ option path, PathOption.ofArg arg = .joined option path
  · obtain ⟨option, path, hjoined⟩ := hjoined
    exact Or.inl ⟨option, path, ofArg_eq_joined.mp hjoined⟩
  · exact Or.inr fun option path h => hjoined ⟨option, path, h⟩

def madeAbsolute (dir : String) (follows : Bool) (arg : List Char) : List Char :=
  if follows then absolute dir arg
  else
    match PathOption.ofArg arg with
    | .joined option path => option ++ absolute dir path
    | _ => arg

theorem absolutePaths_cons (dir : String) (afterFlag : Bool) (arg : List Char) (args : List (List Char)) :
    absolutePaths dir afterFlag (arg :: args) =
      madeAbsolute dir afterFlag arg :: absolutePaths dir (decide (IsFlag arg) && !afterFlag) args := by
  cases afterFlag with
  | true => simp [absolutePaths, madeAbsolute]
  | false =>
    rw [absolutePaths, madeAbsolute]
    cases harg : PathOption.ofArg arg with
    | flag => simp [ofArg_eq_flag.mp harg]
    | _ =>
      have hflag : ¬ IsFlag arg := by
        rw [← ofArg_eq_flag, harg]
        nofun
      simp [hflag]

theorem getElem?_absolutePaths (dir : String) (afterFlag : Bool) (args : List (List Char)) (i : Nat) :
    (absolutePaths dir afterFlag args)[i]? = args[i]?.map (madeAbsolute dir (followsFlag afterFlag args i)) := by
  induction args generalizing afterFlag i with
  | nil => rfl
  | cons arg args ih =>
    rw [absolutePaths_cons]
    cases i with
    | zero => rfl
    | succ i => rw [List.getElem?_cons_succ, List.getElem?_cons_succ, ih, followsFlag_cons]

theorem length_absolutePaths (dir : String) (afterFlag : Bool) (args : List (List Char)) :
    (absolutePaths dir afterFlag args).length = args.length := by
  induction args generalizing afterFlag with
  | nil => rfl
  | cons arg args ih => rw [absolutePaths_cons, List.length_cons, List.length_cons, ih]

/-! ## Below an absolute directory -/

def takenBelow (dir : String) (path : List Char) : List Char :=
  if dir.toList.getLast? = some '/' then dir.toList ++ path else dir.toList ++ '/' :: path

theorem absolute_eq (hdir : Path.isAbsolute dir = true) (path : List Char) :
    absolute dir path = if Path.isAbsolute (String.ofList path) then path else takenBelow dir path := by
  have hne : dir ≠ "" := by
    rintro rfl
    cases hdir
  by_cases habsolute : Path.isAbsolute (String.ofList path) = true
  · rw [if_pos habsolute, absolute_of_isAbsolute habsolute]
  · rw [if_neg habsolute]
    by_cases hend : dir.toList.getLast? = some '/' <;> simp [absolute, Path.join, takenBelow, habsolute, hne, hend]

theorem isAbsolute_absolute (hdir : Path.isAbsolute dir = true) (path : List Char) :
    Path.isAbsolute (String.ofList (absolute dir path)) = true := by
  cases habsolute : Path.isAbsolute (String.ofList path) with
  | true => rwa [absolute_of_isAbsolute habsolute]
  | false =>
    obtain ⟨slash, -, heq⟩ := absolute_of_relative dir habsolute
    unfold Path.isAbsolute at hdir ⊢
    rw [heq, String.toList_ofList]
    cases hchars : dir.toList with
    | nil =>
      rw [hchars] at hdir
      cases hdir
    | cons c cs =>
      rw [hchars] at hdir
      exact hdir

theorem absolute_ne_nil (hdir : Path.isAbsolute dir = true) (path : List Char) : absolute dir path ≠ [] := by
  intro hnil
  have habsolute := isAbsolute_absolute hdir path
  rw [hnil] at habsolute
  cases habsolute

theorem madeAbsolute_joined (dir : String) (h : IsFlag option) (hpath : path ≠ []) :
    madeAbsolute dir false (option ++ path) = option ++ absolute dir path := by
  rw [madeAbsolute, ofArg_eq_joined.mpr ⟨rfl, h, hpath⟩]
  rfl

/-- An argument that begins with no flag, or is nothing but one, stays as it is. -/
theorem madeAbsolute_other (dir : String) (h : ∀ option path, PathOption.ofArg arg ≠ .joined option path) :
    madeAbsolute dir false arg = arg := by
  rw [madeAbsolute]
  cases harg : PathOption.ofArg arg with
  | joined option path => exact absurd harg (h option path)
  | _ => rfl

theorem isFlag_madeAbsolute (hdir : Path.isAbsolute dir = true) (arg : List Char) :
    IsFlag (madeAbsolute dir false arg) ↔ IsFlag arg := by
  obtain ⟨option, path, rfl, hoption, hpath⟩ | hother := joined_or_other arg
  · have hold := ofArg_eq_joined.mpr ⟨rfl, hoption, hpath⟩
    have hnew := ofArg_eq_joined.mpr ⟨rfl, hoption, absolute_ne_nil hdir path⟩
    rw [madeAbsolute_joined dir hoption hpath, ← ofArg_eq_flag, ← ofArg_eq_flag, hnew, hold]
    constructor <;> nofun
  · rw [madeAbsolute_other dir hother]

theorem madeAbsolute_again (hdir : Path.isAbsolute dir = true) (follows : Bool) (arg : List Char) :
    madeAbsolute dir follows (madeAbsolute dir follows arg) = madeAbsolute dir follows arg := by
  have hagain (path : List Char) : absolute dir (absolute dir path) = absolute dir path :=
    absolute_of_isAbsolute (isAbsolute_absolute hdir path)
  cases follows with
  | true => exact hagain arg
  | false =>
    obtain ⟨option, path, rfl, hoption, hpath⟩ | hother := joined_or_other arg
    · rw [madeAbsolute_joined dir hoption hpath, madeAbsolute_joined dir hoption (absolute_ne_nil hdir path), hagain]
    · rw [madeAbsolute_other dir hother, madeAbsolute_other dir hother]

/-! ## All arguments -/

/-- What follows a flag does so when the paths before it are absolute. -/
theorem followsFlag_absolutePaths (hdir : Path.isAbsolute dir = true) (afterFlag : Bool) (args : List (List Char))
    (i : Nat) : followsFlag afterFlag (absolutePaths dir afterFlag args) i = followsFlag afterFlag args i := by
  induction i with
  | zero => rfl
  | succ i ih =>
    rw [followsFlag, followsFlag, ih, getElem?_absolutePaths]
    cases args[i]? with
    | none => rfl
    | some arg =>
      -- what is the path of a flag is none itself, whatever it looks like
      cases followsFlag afterFlag args i with
      | true => rw [Bool.not_true, Bool.and_false, Bool.and_false]
      | false =>
        show (decide (IsFlag (madeAbsolute dir false arg)) && _) = (decide (IsFlag arg) && _)
        rw [decide_eq_decide.mpr (isFlag_madeAbsolute hdir arg)]

theorem absolutePaths_again (hdir : Path.isAbsolute dir = true) (afterFlag : Bool) (args : List (List Char)) :
    absolutePaths dir afterFlag (absolutePaths dir afterFlag args) = absolutePaths dir afterFlag args := by
  apply List.ext_getElem?
  intro i
  rw [getElem?_absolutePaths, followsFlag_absolutePaths hdir, getElem?_absolutePaths, Option.map_map]
  cases args[i]? with
  | none => rfl
  | some arg => exact congrArg some (madeAbsolute_again hdir _ arg)

theorem getElem?_of_not_operandAt (dir : String) {i : Nat} (h : ∀ option path, ¬ OperandAt args i option path) :
    (absolutePaths dir false args)[i]? = args[i]? := by
  rw [getElem?_absolutePaths]
  cases harg : args[i]? with
  | none => rfl
  | some arg =>
    cases hfollows : followsFlag false args i with
    | true => exact absurd ⟨harg, by rw [hfollows]; rfl⟩ (h [] arg)
    | false =>
      refine congrArg some (madeAbsolute_other dir fun option path hjoined => ?_)
      obtain ⟨rfl, hoption, hpath⟩ := ofArg_eq_joined.mp hjoined
      exact h option path ⟨harg, by rw [hfollows]; exact ⟨hoption, hpath⟩⟩

theorem operandAt_absolutePaths (hdir : Path.isAbsolute dir = true) {i : Nat} {new : List Char} :
    OperandAt (absolutePaths dir false args) i option new ↔
      ∃ old, OperandAt args i option old ∧ new = absolute dir old := by
  unfold OperandAt
  rw [followsFlag_absolutePaths hdir, getElem?_absolutePaths]
  cases followsFlag false args i with
  | true =>
    simp only [if_true]
    constructor
    · rintro ⟨hmade, rfl⟩
      obtain ⟨old, hold, rfl⟩ := Option.map_eq_some_iff.mp hmade
      exact ⟨old, ⟨hold, rfl⟩, rfl⟩
    · rintro ⟨old, ⟨hold, rfl⟩, rfl⟩
      exact ⟨congrArg (Option.map _) hold, rfl⟩
  | false =>
    simp only [Bool.false_eq_true, if_false]
    constructor
    · rintro ⟨hmade, hoption, hnew⟩
      obtain ⟨arg, harg, hmade⟩ := Option.map_eq_some_iff.mp hmade
      obtain ⟨option', old, rfl, hoption', hold⟩ | hother := joined_or_other arg
      · rw [madeAbsolute_joined dir hoption' hold] at hmade
        obtain ⟨rfl, rfl⟩ := List.append_inj hmade (hoption'.length_eq.trans hoption.length_eq.symm)
        exact ⟨old, ⟨harg, hoption, hold⟩, rfl⟩
      · rw [madeAbsolute_other dir hother] at hmade
        exact absurd (ofArg_eq_joined.mpr ⟨hmade, hoption, hnew⟩) (hother option new)
    · rintro ⟨old, ⟨hold, hoption, hne⟩, rfl⟩
      refine ⟨?_, hoption, absolute_ne_nil hdir old⟩
      rw [hold, Option.map_some, madeAbsolute_joined dir hoption hne]

/-- Below an absolute directory arguments keep their number, and those that hold no path stay as they are. The paths
are afterwards where they were, behind the same flags, each of them absolute: one that was absolute is the same, and
another is taken below the directory. A second time changes nothing. -/
theorem absolutePaths_operands (hdir : Path.isAbsolute dir = true) (args : List (List Char)) :
    (absolutePaths dir false args).length = args.length ∧
    (∀ i, (∀ option path, ¬ OperandAt args i option path) → (absolutePaths dir false args)[i]? = args[i]?) ∧
    (∀ i option new, OperandAt (absolutePaths dir false args) i option new ↔
      ∃ old, OperandAt args i option old ∧
        new = if Path.isAbsolute (String.ofList old) then old else takenBelow dir old) ∧
    (∀ i option new, OperandAt (absolutePaths dir false args) i option new →
      Path.isAbsolute (String.ofList new) = true) ∧
    absolutePaths dir false (absolutePaths dir false args) = absolutePaths dir false args := by
  refine ⟨length_absolutePaths dir false args, fun i => getElem?_of_not_operandAt dir, ?_, ?_,
    absolutePaths_again hdir false args⟩
  · intro i option new
    simp only [operandAt_absolutePaths hdir, absolute_eq hdir]
  · intro i option new hnew
    obtain ⟨old, -, rfl⟩ := (operandAt_absolutePaths hdir).mp hnew
    exact isAbsolute_absolute hdir old

def sampleFlagged : List (List Char) := ["-I", "-I", "-L", "x", "-Iy", "-L/z", "-lm", "-I"].map String.toList

theorem sampleFlagged_operands : Path.isAbsolute "/p" = true ∧
    (absolutePaths "/p" false sampleFlagged).map String.ofList = ["-I", "/p/-I", "-L", "/p/x", "-I/p/y", "-L/z", "-lm", "-I"] ∧
    OperandAt (absolutePaths "/p" false sampleFlagged) 1 [] "/p/-I".toList ∧
    (absolutePaths "/p" false sampleFlagged)[2]? = sampleFlagged[2]? ∧
    absolutePaths "/p" false (absolutePaths "/p" false sampleFlagged) = absolutePaths "/p" false sampleFlagged := by
  have hdir : Path.isAbsolute "/p" = true := by decide
  obtain ⟨-, hother, hoperand, -, hagain⟩ := absolutePaths_operands hdir sampleFlagged
  refine ⟨hdir, by decide +kernel, (hoperand 1 [] _).mpr ⟨"-I".toList, by decide, by decide⟩, hother 2 ?_, hagain⟩
  intro option path hoperand
  have hflag : IsFlag option ∧ path ≠ [] := hoperand.2
  have hlength : 2 = (option ++ path).length := congrArg List.length (Option.some.inj hoperand.1)
  rw [List.length_append, hflag.1.length_eq] at hlength
  exact hflag.2 (List.eq_nil_of_length_eq_zero (by omega))

end PackageIndex.Cgo
