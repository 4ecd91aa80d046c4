/-
  PackageIndex.Text.Ranges — sets of characters as spans of code points.

  A character class is a list of closed spans, ascending and apart. Each table stands in
  a module of its own, named for the property that it holds (Unicode 17).
-/

namespace PackageIndex

abbrev Ranges := List (Nat × Nat)

def Ranges.has (r : Ranges) (c : Char) : Bool := r.any fun s => s.1 ≤ c.toNat && c.toNat ≤ s.2

end PackageIndex
