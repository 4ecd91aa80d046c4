/-
  PackageIndex.Resolve.Mode — how far a package is resolved.
-/

namespace PackageIndex

structure ResolveMode where
  /-- Stop before the files. -/
  findOnly : Bool := false
  /-- Stop where a file that would be built says that the package has no sources. -/
  allowBinary : Bool := false
  /-- Check the import comments. -/
  importComment : Bool := false
  /-- Vendored packages make no difference to a single directory. -/
  ignoreVendor : Bool := false
  deriving DecidableEq, Repr, Inhabited

/-- The mode whose switches are the four lowest bits. -/
def ResolveMode.ofBits (n : Nat) : ResolveMode :=
  ⟨n.testBit 0, n.testBit 1, n.testBit 2, n.testBit 3⟩

end PackageIndex
