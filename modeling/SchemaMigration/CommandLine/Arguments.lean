import SchemaMigration.Text.Basic

/-!
# Arguments of the command line

Options have a long name behind two dashes and most a letter behind one. The value of an option is
the rest of its argument, behind an equals sign if there is one, or the next argument, unless that
looks like an option. Letters of switches may be joined. Everything else on the line is refused.

Targets may be given several times and are cut at commas; without any they come from the
environment, and without that there is one, `pg`.
-/

namespace SchemaMigration.CommandLine

/-- Why a command line is refused. -/
inductive UsageFault where
  | unknownOption
  | unexpectedArgument
  | unexpectedValue
  | missingValue
  | emptyValue
  | repeated
  | missingCurrent
  | missingPrevious
deriving DecidableEq

/-- The options that take a value. -/
inductive Setting where
  | target
  | current
  | previous
  | outputDirectory
deriving DecidableEq

/-- What the program tells about itself. -/
inductive Notice where
  | help
  | version
deriving DecidableEq

/-- The options that take none. -/
inductive Switch where
  | operations
  | verbose
  | tell (notice : Notice)
deriving DecidableEq

/-- An option. -/
inductive Flag where
  | setting (setting : Setting)
  | switch (switch : Switch)
deriving DecidableEq

/-- The option of a long name. -/
def Flag.ofName? : String → Option Flag
  | "target" => some (.setting .target)
  | "current" => some (.setting .current)
  | "previous" => some (.setting .previous)
  | "output-dir" => some (.setting .outputDirectory)
  | "operations" => some (.switch .operations)
  | "verbose" => some (.switch .verbose)
  | "help" => some (.switch (.tell .help))
  | "version" => some (.switch (.tell .version))
  | _ => none

/-- The option of a letter. -/
def Flag.ofLetter? : Char → Option Flag
  | 't' => some (.setting .target)
  | 'c' => some (.setting .current)
  | 'p' => some (.setting .previous)
  | 'o' => some (.setting .outputDirectory)
  | 'v' => some (.switch .verbose)
  | 'h' => some (.switch (.tell .help))
  | 'V' => some (.switch (.tell .version))
  | _ => none

/-- What has been given so far. -/
structure Given where
  targets : List String := []
  current : Option String := none
  previous : Option String := none
  outputDirectory : Option String := none
  operations : Bool := false
  verbose : Bool := false

namespace Given

/-- A path that is given for the first time. -/
def path (before : Option String) (value : String) : Except UsageFault (Option String) :=
  if value = "" then .error .emptyValue
  else if before.isSome then .error .repeated
  else .ok (some value)

/-- Takes the value of an option. -/
def set (given : Given) (value : String) : Setting → Except UsageFault Given
  | .target => return { given with targets := given.targets ++ Text.split ',' value }
  | .current => return { given with current := ← path given.current value }
  | .previous => return { given with previous := ← path given.previous value }
  | .outputDirectory => return { given with outputDirectory := ← path given.outputDirectory value }

end Given

/-- Where reading one argument leads. A notice is told at once, whatever else is on the line. -/
inductive Step where
  | go (given : Given)
  | awaitValue (given : Given) (setting : Setting)
  | tell (notice : Notice)

/-- Takes a switch. -/
def Given.turnOn (given : Given) : Switch → Except UsageFault Step
  | .operations =>
    if given.operations then .error .repeated else .ok (.go { given with operations := true })
  | .verbose =>
    if given.verbose then .error .repeated else .ok (.go { given with verbose := true })
  | .tell notice => .ok (.tell notice)

/-- A text without an equals sign in front. -/
def dropEquals : List Char → List Char
  | '=' :: rest => rest
  | rest => rest

/-- Reads joined letters. -/
def readLetters (given : Given) : List Char → Except UsageFault Step
  | [] => return .go given
  | letter :: rest =>
    match Flag.ofLetter? letter with
    | none => throw .unknownOption
    | some (.setting setting) =>
      if rest = [] then return .awaitValue given setting
      else return .go (← given.set (String.ofList (dropEquals rest)) setting)
    | some (.switch switch) => do
      match ← given.turnOn switch with
      | .go given => readLetters given rest
      | step => return step

/-- Reads the text behind two dashes: a name, and a value behind an equals sign. -/
def readLong (given : Given) (text : List Char) : Except UsageFault Step := do
  let name := text.takeWhile (· ≠ '=')
  let value := text.drop name.length
  match Flag.ofName? (String.ofList name) with
  | none => throw .unknownOption
  | some (.setting setting) =>
    if value = [] then return .awaitValue given setting
    else return .go (← given.set (String.ofList (dropEquals value)) setting)
  | some (.switch switch) =>
    if value ≠ [] then throw .unexpectedValue
    given.turnOn switch

/-- Reads one argument that is not a value. -/
def readArgument (given : Given) (argument : String) : Except UsageFault Step :=
  match argument.toList with
  | '-' :: '-' :: text => readLong given text
  | '-' :: letter :: letters => readLetters given (letter :: letters)
  | _ => throw .unexpectedArgument

/-- An argument that looks like an option is no value. -/
def looksLikeOption (argument : String) : Bool :=
  match argument.toList with
  | '-' :: _ :: _ => true
  | _ => false

/-- What a whole command line says. -/
inductive Line where
  | tell (notice : Notice)
  | all (given : Given)

/-- Reads arguments from left to right. Behind two dashes alone nothing may follow. -/
def readArguments (given : Given) (pending : Option Setting) :
    List String → Except UsageFault Line
  | [] => if pending.isSome then throw .missingValue else return .all given
  | argument :: arguments =>
    match pending with
    | some setting =>
      if looksLikeOption argument then throw .missingValue
      else do readArguments (← given.set argument setting) none arguments
    | none =>
      if argument = "--" then
        if arguments = [] then return .all given else throw .unexpectedArgument
      else do
        match ← readArgument given argument with
        | .tell notice => return .tell notice
        | .go given => readArguments given none arguments
        | .awaitValue given setting => readArguments given (some setting) arguments

/-- What the program is asked to do with documents. -/
structure Options where
  targets : List String
  current : String
  previous : Option String
  outputDirectory : Option String
  operations : Bool
  verbose : Bool
deriving DecidableEq

/-- What the program is asked for. -/
inductive Request where
  | tell (notice : Notice)
  | run (options : Options)
deriving DecidableEq

/-- The targets: those given, else those of the environment, else the default. -/
def Given.allTargets (given : Given) (environment : Option String) : List String :=
  if given.targets = [] then Text.split ',' (environment.getD "pg") else given.targets

/-- What a command line asks for. -/
def Request.ofArguments (environment : Option String) (arguments : List String) :
    Except UsageFault Request := do
  match ← readArguments {} none arguments with
  | .tell notice => return .tell notice
  | .all given =>
    let some current := given.current | throw .missingCurrent
    if given.operations && given.previous.isNone then throw .missingPrevious
    return .run {
      targets := given.allTargets environment
      current
      previous := given.previous
      outputDirectory := given.outputDirectory
      operations := given.operations
      verbose := given.verbose }

end SchemaMigration.CommandLine
