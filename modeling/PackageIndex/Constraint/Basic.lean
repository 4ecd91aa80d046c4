/-
  PackageIndex.Constraint.Basic — build constraints: conditions on tags.

  A constraint is a tag or is built from constraints by negation, conjunction and
  disjunction. `eval` asks about every occurrence of a tag, also where the answer is
  already decided, so that whoever keeps a record of the tags consulted sees them all.
  `spell` writes a constraint with no more parentheses than precedence asks for.
-/

namespace PackageIndex

inductive Constraint where
  | tag (name : String)
  | not (e : Constraint)
  | and (es : List Constraint)
  | or (es : List Constraint)
  deriving Repr

namespace Constraint

instance : Inhabited Constraint := ⟨.tag ""⟩

/-! ## Evaluation -/

mutual

def eval {σ : Type} (ask : String → StateM σ Bool) : Constraint → StateM σ Bool
  | .tag name => ask name
  | .not e => do return !(← e.eval ask)
  | .and es => do return (← evalAll ask es).all id
  | .or es => do return (← evalAll ask es).any id

def evalAll {σ : Type} (ask : String → StateM σ Bool) : List Constraint → StateM σ (List Bool)
  | [] => return []
  | e :: es => do
    let answer ← e.eval ask
    return answer :: (← evalAll ask es)

end

mutual

/-- The tags in the order in which `eval` asks about them, with repeats. -/
def tags : Constraint → List String
  | .tag name => [name]
  | .not e => e.tags
  | .and es => tagsAll es
  | .or es => tagsAll es

def tagsAll : List Constraint → List String
  | [] => []
  | e :: es => e.tags ++ tagsAll es

end

/-! ## Spelling -/

def isOr : Constraint → Bool
  | .or _ => true
  | _ => false

def isUnary : Constraint → Bool
  | .tag _ => true
  | .not _ => true
  | _ => false

def enclosed (s : List Char) : List Char := '(' :: s ++ [')']

mutual

def spell : Constraint → List Char
  | .tag name => name.toList
  | .not e => '!' :: (if e.isUnary then e.spell else enclosed e.spell)
  | .and es => (spellOperands es).intersperse " && ".toList |>.flatten
  | .or es => (spellAll es).intersperse " || ".toList |>.flatten

/-- The operands of a conjunction: a disjunction among them takes parentheses. -/
def spellOperands : List Constraint → List (List Char)
  | [] => []
  | e :: es => (if e.isOr then enclosed e.spell else e.spell) :: spellOperands es

def spellAll : List Constraint → List (List Char)
  | [] => []
  | e :: es => e.spell :: spellAll es

end

def text (e : Constraint) : String := String.ofList e.spell

end Constraint

end PackageIndex
