import SchemaMigration.CommandLine.Arguments
import SchemaMigration.FileTree
import SchemaMigration.Operation.Document
import SchemaMigration.Sql.Script

/-!
# Runs of the command line

A run reads the current document, then the previous one, and decides what is printed or written. It
decides all of it before anything is written, so a run that fails in its documents or in generation
leaves nothing behind. A command line that asks for a notice about the program gets that instead.
-/

namespace SchemaMigration.CommandLine

/-- The name and the version of the program. -/
def versionLine : String := "schema-to-sql 0.1.0\n"

/-- The variable of the environment that holds targets. -/
def targetsVariable : String := "SCHEMA_TO_SQL_TARGETS"

/-- The usage of the program. Beside the variable of the environment stands what it holds. -/
def helpText (environment : Option String) : String :=
  "Dialect-aware DDL generation and schema diffing for logical data models\n\n" ++
  "Usage: schema-to-sql [OPTIONS] --current <CURRENT>\n\n" ++
  "Options:\n" ++
  "  -t, --target <TARGETS>         Target dialects (pg, redshift) " ++
    "[env: " ++ targetsVariable ++ "=" ++ environment.getD "" ++ "] [default: pg]\n" ++
  "  -c, --current <CURRENT>        Current schema document\n" ++
  "  -p, --previous <PREVIOUS>      Previous schema document; when given, migration DDL is " ++
    "generated\n" ++
  "  -o, --output-dir <OUTPUT_DIR>  Write `<target>.sql` files into this directory instead of " ++
    "printing\n" ++
  "      --operations               Print the detected schema operations as JSON instead of " ++
    "SQL\n" ++
  "  -v, --verbose                  Enable verbose output\n" ++
  "  -h, --help                     Print help\n" ++
  "  -V, --version                  Print version\n"

/-- The text of a notice. -/
def Notice.text (environment : Option String) : Notice → String
  | help => helpText environment
  | version => versionLine

/-- What a run puts out: a text to print, or files to write in a directory. -/
inductive Product where
  | print (text : String)
  | write (directory : String) (files : List (String × String))
deriving DecidableEq

/-- The indented document of a list of operations. -/
def operationsText (operations : List Operation) : String :=
  (Json.Value.array (operations.map Operation.toJson)).indented 0

/-- The scripts as they are printed: each behind a line with its target. -/
def printed (scripts : Scripts) : String :=
  String.join (scripts.map fun script => "-- " ++ script.1 ++ "\n" ++ script.2 ++ "\n")

/-- The scripts as files, each named for its target. -/
def scriptFiles (scripts : Scripts) : List (String × String) :=
  scripts.map fun script => (script.1 ++ ".sql", script.2)

/-- The end of a run in a file tree: exit code, printed text, error text, and the tree after it. -/
structure Ending where
  code : Nat
  output : String := ""
  error : Option String := none
  tree : FileTree

/-- Writes files in a directory, one by one, up to the first that cannot be written. -/
def writeFiles (directory : String) : List (String × String) → FileTree →
    FileTree × Except FileFault Unit
  | [], tree => (tree, .ok ())
  | file :: files, tree =>
    match tree.write directory file.1 file.2 with
    | .ok tree => writeFiles directory files tree
    | .error fault => (tree, .error fault)

/-- Puts out a product in a file tree. -/
def Product.putOut (tree : FileTree) : Product → Ending
  | .print text => { code := 0, output := text, tree }
  | .write directory files =>
    match tree.makeDirectories directory with
    | .error fault => { code := 1, error := some fault.message, tree }
    | .ok tree =>
      match writeFiles directory files tree with
      | (tree, .ok ()) => { code := 0, tree }
      | (tree, .error fault) => { code := 1, error := some fault.message, tree }

section

-- Where in the text of a document its fault shows.
variable (locate : String → Option Json.Position)

/-- What a run puts out, from the contents of the files that it names. -/
def Options.product (options : Options) (read : String → Except FileFault String) :
    Except Failure Product := do
  let current ← Schema.ofFile locate (read options.current)
  let previous ← options.previous.mapM fun path => Schema.ofFile locate (read path)
  match options.operations, previous with
  | true, some previous => return .print (operationsText (diff previous current) ++ "\n")
  | _, _ =>
    let scripts ← (generate options.targets current previous).outcome
    match options.outputDirectory with
    | some directory => return .write directory (scriptFiles scripts)
    | none => return .print (printed scripts)

/-- Runs a command line in a file tree. -/
def runIn (tree : FileTree) (environment : Option String) (arguments : List String) : Ending :=
  match Request.ofArguments environment arguments with
  | .error _ => { code := 2, tree }
  | .ok (.tell notice) => { code := 0, output := notice.text environment, tree }
  | .ok (.run options) =>
    match options.product locate tree.read with
    | .error failure => { code := 1, error := some failure.message, tree }
    | .ok product => product.putOut tree

end

end SchemaMigration.CommandLine
