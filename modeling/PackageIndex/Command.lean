/-
  PackageIndex.Command — the commands `write`, `cook` and `scan`.

  Each works on files and the environment, and tells an exit code and what to print: 0 and
  a result, 1 and an error, or 2 and the usage.
-/

import PackageIndex.Context.Environment
import PackageIndex.Context.Reader
import PackageIndex.Index.Resolve
import PackageIndex.Resolve.Printer
import PackageIndex.Files.Survey

namespace PackageIndex.Command

structure Output where
  code : Nat := 0
  stdout : String := ""
  stderr : String := ""
  /-- The files that were written. -/
  written : List String := []
  deriving DecidableEq, Repr, Inhabited

def environmentNames : List String := ["GOOS", "GOARCH", "CGO_ENABLED", "MODINDEX_TAGS", "MODINDEX_CONTEXT"]

def usage : String :=
  "usage:\n" ++
  "  modindex write <module-dir> <index-file>\n" ++
  "  modindex cook <index-file> <module-dir> <rel-dir>\n" ++
  "  modindex scan <dir>\n"

/-! ## What commands read and write -/

def loadContext (fs : Files) (path : String) : Except ContextError BuildContext := do
  let content ← (fs.read path).mapError (.unreadable path)
  let text ← (Utf8.decode content).mapError fun _ => .unreadable path .notText
  match BuildContext.ofText? text with
  | some ctx => return ctx
  | none => throw (.unparsable path)

/-- The build context that `MODINDEX_CONTEXT` names a file of, or else the environment's. -/
def context (env : String → Option String) (fs : Files) : Except Failure BuildContext :=
  match BuildContext.nonempty (env "MODINDEX_CONTEXT") with
  | some path => (loadContext fs path).mapError .context
  | none => (BuildContext.ofEnvironment env).mapError .context

def openIndex (fs : Files) (path moduleDir : String) : Except Failure OpenIndex := do
  let bytes ← (fs.read path).mapError .io
  (OpenIndex.ofBytes moduleDir bytes.toArray).mapError .format

def writeIndex (path moduleDir : String) (m : ModuleRecord) : ExceptT Failure (StateM Files) Unit := do
  let (bytes, _) ← Encoding.ofModule moduleDir m.packages
  (Files.write path bytes).adapt .io

def trimSlashes (s : String) : String := String.ofList (trim (· == '/') s.toList)

def printed (p : BuildPackage) : String := p.toJson.text ++ "\n"

/-! ## Commands -/

def write (moduleDir indexFile : String) : ExceptT Failure (StateM Files) String := do
  let m ← (← get).moduleRecord moduleDir
  writeIndex indexFile moduleDir m
  return "indexed " ++ toString m.size ++ " directories into " ++ indexFile ++ "\n"

def cook (env : String → Option String) (fs : Files) (indexFile moduleDir relDir : String) :
    Except Failure String := do
  let ctx ← context env fs
  let x ← openIndex fs indexFile moduleDir
  return printed (← x.resolve (trimSlashes relDir) ctx { importComment := true })

def scan (env : String → Option String) (fs : Files) (dir : String) : Except Failure String := do
  let ctx ← context env fs
  if dir = "" then throw (.io .emptyPath)
  let p := fs.packageRecord (ByteString.absolute fs.cwdPath dir)
  return printed (← resolve p.view ctx { importComment := true })

def Output.ofResult : Except Failure String → Output
  | .ok text => { stdout := text }
  | .error e => { code := 1, stderr := "modindex: " ++ e.message ++ "\n" }

def run (env : String → Option String) (args : List String) (fs : Files) : Output × Files :=
  match args with
  | ["write", moduleDir, indexFile] =>
    let (result, fs) := (write moduleDir indexFile).run.run fs
    ({ Output.ofResult result with written := if result.isOk then [indexFile] else [] }, fs)
  | ["cook", indexFile, moduleDir, relDir] => (.ofResult (cook env fs indexFile moduleDir relDir), fs)
  | ["scan", dir] => (.ofResult (scan env fs dir), fs)
  | _ => ({ code := 2, stderr := usage }, fs)

end PackageIndex.Command
