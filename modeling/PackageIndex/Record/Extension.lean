/-
  PackageIndex.Record.Extension — what the ending of a file's name says of its language.
-/

namespace PackageIndex

/-- The languages of a package's files, by what builds them. -/
inductive Language where
  | go
  | c
  | cxx
  | m
  | h
  | fortran
  | assembly
  /-- Assembly that goes through the C preprocessor first. -/
  | preprocessed
  | swig
  | swigCxx
  | object
  deriving DecidableEq, Repr

/-- The ending of a name from its last dot on; nothing where there is none. -/
def extension (name : String) : String :=
  let tail := name.toList.reverse.takeWhile (· ≠ '.')
  if tail.length = name.toList.length then "" else String.ofList ('.' :: tail.reverse)

def Language.extensions : List (String × Language) :=
  [(".go", .go), (".c", .c), (".cc", .cxx), (".cpp", .cxx), (".cxx", .cxx), (".m", .m), (".h", .h), (".hh", .h),
   (".hpp", .h), (".hxx", .h), (".f", .fortran), (".F", .fortran), (".for", .fortran), (".f90", .fortran),
   (".s", .assembly), (".S", .preprocessed), (".sx", .preprocessed), (".swig", .swig), (".swigcxx", .swigCxx),
   (".syso", .object)]

def Language.ofName? (name : String) : Option Language := Language.extensions.lookup (extension name)

theorem Language.ofName?_eq_go {name : String} : ofName? name = some .go ↔ extension name = ".go" := by
  constructor
  · intro h
    obtain ⟨before, after, hsplit, -⟩ := List.lookup_eq_some_iff.mp h
    have hmem : (extension name, Language.go) ∈ extensions := by
      rw [hsplit]
      simp
    have hgo : ∀ e ∈ extensions, e.2 = Language.go → e.1 = ".go" := by decide
    exact hgo _ hmem rfl
  · intro h
    unfold ofName?
    rw [h]
    rfl

def hasEnding (ending name : String) : Bool := ending.toList.isSuffixOf name.toList

def isTestName (name : String) : Bool := hasEnding "_test.go" name

/-- Files whose names begin so are left out of every build. -/
def isHiddenName (name : String) : Bool := name.toList.head? == some '_' || name.toList.head? == some '.'

end PackageIndex
