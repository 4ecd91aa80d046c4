/-
  PackageIndex.Path — slash-separated paths.

  A path is read as components: repeated and trailing slashes bound none, and a dot is
  one only at the start of a relative path. `relative?` is the path of a directory below
  a root, told by components alone.
-/

namespace PackageIndex.Path

/-! ## Joining -/

section

variable {α : Type} [DecidableEq α]

/-- What begins with a slash stands for itself, and other things are taken below `dir`. -/
def joinedBy (slash : α) (dir path : List α) : List α :=
  if path.head? = some slash then path
  else if dir = [] ∨ dir.getLast? = some slash then dir ++ path
  else dir ++ slash :: path

variable {slash : α} {dir path : List α}

theorem joinedBy_cases (hdir : dir ≠ []) (hpath : slash ∉ path) :
    (∃ front, dir = front ++ [slash] ∧ joinedBy slash dir path = front ++ slash :: path) ∨
      joinedBy slash dir path = dir ++ slash :: path := by
  have hhead : path.head? ≠ some slash := fun h => hpath (List.mem_of_mem_head? h)
  unfold joinedBy
  rw [if_neg hhead]
  by_cases hslash : dir.getLast? = some slash
  · obtain ⟨front, rfl⟩ := List.getLast?_eq_some_iff.mp hslash
    exact Or.inl ⟨front, rfl, by simp⟩
  · exact Or.inr (if_neg (by simp [hdir, hslash]))

theorem joinedBy_ne_nil (hdir : dir ≠ []) (hpath : slash ∉ path) : joinedBy slash dir path ≠ [] := by
  rcases joinedBy_cases hdir hpath with ⟨front, -, hjoined⟩ | hjoined <;> simp [hjoined]

theorem head?_joinedBy (hdir : dir ≠ []) (hpath : slash ∉ path) : (joinedBy slash dir path).head? = dir.head? := by
  rcases joinedBy_cases hdir hpath with ⟨front, hfront, hjoined⟩ | hjoined
  · rw [hjoined, hfront]
    cases front <;> rfl
  · obtain ⟨a, l, hl⟩ := List.exists_cons_of_ne_nil hdir
    rw [hjoined, hl]
    rfl

/-- The last piece is what was joined; an empty piece in front of it is gone. -/
theorem splitOn_joinedBy (hdir : dir ≠ []) (hpath : slash ∉ path) :
    ∃ first front, (dir.splitOn slash = first :: front ∨ dir.splitOn slash = first :: front ++ [[]]) ∧
      (joinedBy slash dir path).splitOn slash = first :: front ++ [path] := by
  have hone : path.splitOn slash = [path] := List.splitOn_eq_singleton hpath
  rcases joinedBy_cases hdir hpath with ⟨front, rfl, hjoined⟩ | hjoined
  · obtain ⟨first, more, hmore⟩ := List.exists_cons_of_ne_nil (List.splitOn_ne_nil slash front)
    refine ⟨first, more, Or.inr ?_, ?_⟩
    · rw [List.splitOn_append_cons_self, hmore]
      rfl
    · rw [hjoined, List.splitOn_append_cons_self, hone, hmore]
  · obtain ⟨first, more, hmore⟩ := List.exists_cons_of_ne_nil (List.splitOn_ne_nil slash dir)
    refine ⟨first, more, Or.inl hmore, ?_⟩
    rw [hjoined, List.splitOn_append_cons_self, hone, hmore]

end

/-! ## Paths that are text -/

def isAbsolute (p : String) : Bool := p.toList.head? == some '/'

def join (dir path : String) : String :=
  if isAbsolute path then path
  else if dir = "" ∨ dir.toList.getLast? = some '/' then dir ++ path
  else dir ++ "/" ++ path

def directory (p : String) : String :=
  match p.toList.reverse.dropWhile (· ≠ '/') with
  | [] => "."
  | s => String.ofList s.reverse

inductive Component where
  | root
  /-- A leading dot. -/
  | here
  | up
  | name (s : String)
  deriving DecidableEq, Repr

def Component.spelling : Component → String
  | .root => "/"
  | .here => "."
  | .up => ".."
  | .name s => s

def Component.ofPiece? (piece : List Char) : Option Component :=
  if piece = [] ∨ piece = ['.'] then none
  else if piece = ['.', '.'] then some .up
  else some (.name (String.ofList piece))

def pieces (p : String) : List (List Char) := p.toList.splitOn '/'

def components (p : String) : List Component :=
  let inner := (pieces p).filterMap Component.ofPiece?
  if isAbsolute p then .root :: inner
  else if (pieces p).head? = some ['.'] then .here :: inner
  else inner

def names? : List Component → Option (List String)
  | [] => some []
  | .here :: cs => names? cs
  | .name s :: cs => (names? cs).map (s :: ·)
  | _ => none

/-- The names that lead from `root` to `dir`; a relative `dir` is taken to lie below it. -/
def relativeNames? (root dir : String) : Option (List String) :=
  if isAbsolute dir then ((components root).isPrefixOf? (components dir)).bind names?
  else names? (components dir)

/-- The path of `dir` below `root`, in its shortest spelling. -/
def relative? (root dir : String) : Option String := (relativeNames? root dir).map ("/".intercalate ·)

end PackageIndex.Path
