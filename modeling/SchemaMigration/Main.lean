import SchemaMigration.CommandLine.Run

/-!
# The program

The outer layer: it reads the files that a command line names, lets the library decide, and puts the
result out. Exit code 2 stands for a command line that is refused, 1 for every other failure.
-/

open SchemaMigration SchemaMigration.CommandLine

/-- What the system reports, as a fault of files. -/
def faultOfSystem : IO.Error → FileFault
  | .noFileOrDirectory .. => .notFound
  | .alreadyExists _ _ _ => .alreadyThere
  | .invalidArgument _ 36 _ => .nameTooLong
  | .inappropriateType _ 20 _ => .notDirectory
  | .inappropriateType _ 21 _ => .isDirectory
  | .otherError code details => .other code.toNat details
  | error => .other 0 (toString error)

/-- Does something with files and keeps its fault. -/
def attempt {α : Type} (action : IO α) : IO (Except FileFault α) := do
  try return .ok (← action) catch error => return .error (faultOfSystem error)

/-- The text of a file. -/
def contentOf (path : String) : IO (Except FileFault String) := do
  return (← attempt (IO.FS.readBinFile path)).bind FileFault.decode

/-- Writes files in a directory. -/
def writeOut (directory : String) (files : List (String × String)) : IO (Except FileFault Unit) :=
  attempt do
    IO.FS.createDirAll directory
    for (name, content) in files do
      IO.FS.writeFile (directory ++ "/" ++ name) content

/-- Tells why the program stops. -/
def stop (message : String) : IO UInt32 := do
  IO.eprintln ("Error: " ++ message)
  return 1

/-- Does what the options ask for. -/
def perform (options : Options) : IO UInt32 := do
  let paths := options.current :: options.previous.toList
  let contents ← paths.mapM fun path => return (path, ← contentOf path)
  let read path := (Keyed.find? path contents).getD (.error .notFound)
  -- Messages leave out where in a document a fault shows.
  match options.product (fun _ => none) read with
  | .error failure => stop failure.message
  | .ok (.print text) =>
    IO.print text
    return 0
  | .ok (.write directory files) =>
    match ← writeOut directory files with
    | .error fault => stop fault.message
    | .ok () => return 0

/-- The program. -/
def main (arguments : List String) : IO UInt32 := do
  let environment ← IO.getEnv targetsVariable
  match Request.ofArguments environment arguments with
  | .error _ =>
    IO.eprintln "error: the command line is not understood"
    return 2
  | .ok (.tell notice) =>
    IO.print (notice.text environment)
    return 0
  | .ok (.run options) => perform options
