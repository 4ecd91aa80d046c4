/-
  PackageIndex.Text.Numeral — numbers spelt with a fixed count of digits.
-/

namespace PackageIndex

def digit? (base : Nat) (c : Char) : Option Nat :=
  let value? :=
    if '0' ≤ c ∧ c ≤ '9' then some (c.toNat - '0'.toNat)
    else if 'a' ≤ c ∧ c ≤ 'f' then some (c.toNat - 'a'.toNat + 10)
    else if 'A' ≤ c ∧ c ≤ 'F' then some (c.toNat - 'A'.toNat + 10)
    else none
  value?.filter (· < base)

/-- The number that the first `count` characters spell. -/
def numeral? (base count : Nat) (s : List Char) : Option Nat :=
  if (s.take count).length = count then
    ((s.take count).mapM (digit? base)).map (·.foldl (fun n d => n * base + d) 0)
  else none

end PackageIndex
