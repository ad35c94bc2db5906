import ClassAtlas.Cli.Program

/-!
The program on the files of a computer.
-/

namespace ClassAtlas

/-- What the library makes of a failure that the computer reports. -/
def fileError : IO.Error → FileError
  | .noFileOrDirectory .. => .notFound
  | .alreadyExists .. => .exists
  | .inappropriateType .. => .notDirectory
  | e => .other (toString e)

def attempt {α : Type} (action : IO α) : IO (Except FileError α) := do
  try
    return .ok (← action)
  catch e => return .error (fileError e)

instance : FileAccess IO where
  isFile path := do
    let place := (← IO.currentDir) / path
    return !path.isEmpty && (← place.pathExists) && !(← place.isDir)
  isDirectory path := do
    let place := (← IO.currentDir) / path
    return !path.isEmpty && (← place.isDir)
  read path := attempt do
    return (← IO.FS.readBinFile path).toList
  list path := do
    let root := (← IO.currentDir) / path
    let depth := root.components.length
    let found ← root.walkDir
    let files ← found.toList.filterM fun place => return !(← place.isDir)
    return files.map fun place => place.components.drop depth
  makeDirectory path := attempt (IO.FS.createDirAll path)
  write path bytes := attempt (IO.FS.writeBinFile path ⟨bytes.toArray⟩)
  replace path bytes := attempt do
    let draft := path ++ ".part"
    IO.FS.writeBinFile draft ⟨bytes.toArray⟩
    IO.FS.rename draft path

end ClassAtlas

open ClassAtlas in
/-- Runs the program with the arguments of the command line. -/
def main (args : List String) : IO UInt32 := do
  let directory := (← IO.getEnv "TMPDIR").getD "/tmp"
  let home ← IO.getEnv "JAVA_HOME"
  let outcome ← Cli.run ⟨home, Path.join directory "jarscope/primary.jar"⟩ args
  IO.print outcome.out
  IO.eprint outcome.err
  return outcome.code.toUInt32
