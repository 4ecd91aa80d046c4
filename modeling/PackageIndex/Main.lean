/-
  PackageIndex.Main — the command line.

  The files to work on are listed on standard input, a path on each line, directories
  with a slash at the end. Nothing that is not listed is seen.
-/

import PackageIndex.Command

open PackageIndex

/-- The lines of standard input. -/
partial def listed (input : IO.FS.Stream) : IO (List String) := do
  let line ← input.getLine
  if line.isEmpty then return []
  return (line.dropEndWhile (· == '\n')).toString :: (← listed input)

def treeAt (path : String) : IO Tree := do
  if path.endsWith "/" then return .dir []
  return .file (← IO.FS.readBinFile path).toList

def main (args : List String) : IO UInt32 := do
  let env ← Command.environmentNames.mapM fun name => return (name, ← IO.getEnv name)
  let cwd := Files.steps ((← IO.getEnv "PWD").getD "")
  let found ← (← listed (← IO.getStdin)).mapM fun path => return ((path : ByteString), ← treeAt path)
  let (out, fs) := Command.run (fun name => (env.lookup name).join) args (.ofList cwd found)
  for path in out.written do
    IO.FS.createDirAll (Path.directory path)
    if let .ok content := fs.read path then IO.FS.writeBinFile path ⟨content.toArray⟩
  IO.print out.stdout
  IO.eprint out.stderr
  return out.code.toUInt32
