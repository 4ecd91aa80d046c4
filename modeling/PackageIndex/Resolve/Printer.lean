/-
  PackageIndex.Resolve.Printer — build packages in JSON.

  Fields stand in the order in which the structure declares them.
-/

import PackageIndex.Json.Printer
import PackageIndex.Resolve.Package

namespace PackageIndex

def Json.record (members : List (String × Json)) : Json :=
  .object (members.map fun (name, v) => (name.toList, v))

def Position.toJson (p : Position) : Json :=
  .record [("filename", .ofString p.filename), ("offset", .ofNat p.offset.toNat), ("line", .ofNat p.line.toNat),
    ("column", .ofNat p.column.toNat)]

def Cgo.Flags.toJson (f : Cgo.Flags) : Json :=
  .record [("cflags", .ofStrings f.cflags), ("cppflags", .ofStrings f.cppflags), ("cxxflags", .ofStrings f.cxxflags),
    ("fflags", .ofStrings f.fflags), ("ldflags", .ofStrings f.ldflags), ("pkg_config", .ofStrings f.pkgConfig)]

def Declarations.toJson (d : Declarations) : Json :=
  .record [("list", .ofStrings d.keys),
    ("positions", .object (d.entries.map fun (k, ps) =>
      (k.toList.flatMap Json.spellChar, .array (ps.map Position.toJson))))]

def PackageProblem.detail : PackageProblem → String × Json
  | .package text => ("package", .ofString text)
  | .file text => ("file", .ofString text)
  | .multiplePackages dir (p, q) (f, g) =>
    ("multiple_packages",
      .record [("dir", .ofString dir), ("packages", .ofStrings [p, q]), ("files", .ofStrings [f, g])])
  | .noSources dir => ("no_buildable_sources", .record [("dir", .ofString dir)])
  | .unknownCompiler compiler => ("unknown_compiler", .record [("compiler", .ofString compiler)])

def PackageProblem.toJson (e : PackageProblem) : Json :=
  .record [("kind", .ofString e.detail.1), ("detail", e.detail.2)]

def BuildPackage.members (p : BuildPackage) : List (String × Json) :=
  [("dir", .ofString p.dir), ("import_path", .ofString p.importPath), ("name", .ofString p.name),
   ("doc", .ofString p.doc), ("import_comment", .ofString p.importComment), ("binary_only", .bool p.binaryOnly),
   ("go_files", .ofStrings p.goFiles), ("cgo_files", .ofStrings p.cgoFiles),
   ("ignored_go_files", .ofStrings p.ignoredGoFiles), ("ignored_other_files", .ofStrings p.ignoredOtherFiles),
   ("invalid_go_files", .ofStrings p.invalidGoFiles), ("c_files", .ofStrings p.cFiles),
   ("cxx_files", .ofStrings p.cxxFiles), ("m_files", .ofStrings p.mFiles), ("h_files", .ofStrings p.hFiles),
   ("f_files", .ofStrings p.fFiles), ("s_files", .ofStrings p.sFiles), ("swig_files", .ofStrings p.swigFiles),
   ("swig_cxx_files", .ofStrings p.swigCxxFiles), ("syso_files", .ofStrings p.sysoFiles),
   ("test_go_files", .ofStrings p.testGoFiles), ("xtest_go_files", .ofStrings p.xtestGoFiles),
   ("cgo", p.cgo.toJson), ("imports", Declarations.toJson p.imports),
   ("test_imports", Declarations.toJson p.testImports), ("xtest_imports", Declarations.toJson p.xtestImports),
   ("embeds", Declarations.toJson p.embeds), ("test_embeds", Declarations.toJson p.testEmbeds),
   ("xtest_embeds", Declarations.toJson p.xtestEmbeds), ("all_tags", .ofStrings p.allTags),
   ("error", match p.error with
     | some e => e.toJson
     | none => .null)]

def BuildPackage.toJson (p : BuildPackage) : Json := .record p.members

end PackageIndex
