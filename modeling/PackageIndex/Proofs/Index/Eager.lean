/-
  PackageIndex.Proofs.Index.Eager — a package resolved field by field, or read whole before.

  What an index holds need not have been written as one: records can overlap, and embeds can
  stand in any order. A record that is read has its embeds by pattern, so it is another one
  than stands there; it resolves to the same.
-/

import PackageIndex.Proofs.Index.Resolve
import PackageIndex.Proofs.Resolve.Regrouping

namespace PackageIndex.OpenIndex

/-- Where all of a package can be read, it resolves from the index to what the record that is read resolves to,
whatever bytes were opened. -/
theorem resolve_eager {moduleDir : String} {data : Array UInt8} {x : OpenIndex} (_ : ofBytes moduleDir data = .ok x)
    {dir : String} {p : PackageEntry} (hp : x.package? dir = .ok (some p)) {record : PackageRecord}
    (hread : p.view.read = .ok record) (ctx : BuildContext) (mode : ResolveMode) :
    x.resolve dir ctx mode = PackageIndex.resolve record.view ctx mode :=
  (resolve_opened hp ctx mode).trans (PackageIndex.resolve_of_read hread ctx mode).symm

/-- An index of one package with the same file twice, whose embeds stand as `b`, `a` and `b` again. -/
def sampleDisordered : Array UInt8 :=
  (indexVersion ++ bytesOfWords ([168, 1, 0, 28, 0, 0, 12, 0, 2, 56, 56] ++
    [0, 0, 0, 1, 6, 0, 0, 0, 0, 0, 0, 0, 3, 10, 0, 1, 1, 1, 8, 0, 2, 1, 2, 10, 0, 3, 1, 3]) ++
    0 :: ["a.go", "p", "a", "b", "/s"].flatMap fun s => Utf8.ofString s ++ [0]).toArray

def sampleFile : FileRecord where
  name := "a.go"
  pkgName := "p"
  embeds := ⟨[("a", [⟨"", 2, 1, 2⟩]), ("b", [⟨"", 1, 1, 1⟩, ⟨"", 3, 1, 3⟩])], by decide⟩

def sampleRecord : PackageRecord where
  srcDir := "/s"
  files := [sampleFile, sampleFile]

def sampleOpened : OpenIndex := ⟨"/m", sampleDisordered, 168, ⟨sampleDisordered.extract 168⟩, [("", 28)]⟩

theorem sampleDisordered_resolve : ∃ x p, ofBytes "/m" sampleDisordered = .ok x ∧ x.package? "" = .ok (some p) ∧
    p.view.read = .ok sampleRecord ∧
    ∀ ctx mode, x.resolve "" ctx mode = PackageIndex.resolve sampleRecord.view ctx mode := by
  have hx : ofBytes "/m" sampleDisordered = .ok sampleOpened := by decide +kernel
  have hp : sampleOpened.package? "" =
      .ok (some ⟨"", "", "/s", "", List.replicate 2 { index := sampleOpened, offset := 56 }⟩) := by
    decide +kernel
  have hread : (PackageEntry.mk "" "" "/s" "" (List.replicate 2 { index := sampleOpened, offset := 56 })).view.read =
      .ok sampleRecord := by
    decide +kernel
  exact ⟨_, _, hx, hp, hread, resolve_eager hx hp hread⟩

end PackageIndex.OpenIndex
