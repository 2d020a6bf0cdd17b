import PieSyntax.CommandLine.Options
import PieSyntax.Json.Syntax
import PieSyntax.Reading.Source

/-!
# The command

The command reads the named files in order and stops at the first that cannot be read.  When all
have been read it prints how many forms each has, or the forms themselves as JSON; a file that is
named twice is read twice and printed once, where it was first named.

What the command does is a value: what goes to either output, and how it ends.
-/

namespace PieSyntax.CommandLine

/-! ## Texts -/

/-- The line that shows how the command is used. -/
def usage : String := "usage: pie-parse [-h] [--json] [-v] files [files ...]\n"

/-- The text that is shown on request. -/
def helpText : String :=
  usage ++ "\nParse #lang pie source files\n\n" ++
    "positional arguments:\n" ++
    "  files          Pie source files\n\n" ++
    "options:\n" ++
    "  -h, --help     show this help message and exit\n" ++
    "  --json         Print parsed AST as JSON\n" ++
    "  -v, --verbose  Log debug output to stderr\n"

/-- What is shown when the arguments are wrong. -/
def usageText (e : UsageError) : String := usage ++ "pie-parse: error: " ++ e.message ++ "\n"

/-! ## Log -/

/-- How important a log message is. -/
inductive Level where
  | debug
  | info
  deriving DecidableEq, Repr

/-- A message of the log, with the part of the program that it comes from. -/
structure LogMessage where
  level : Level
  component : String
  text : String

/-- A log message on a line of its own. -/
def LogMessage.line (m : LogMessage) : String :=
  let level := match m.level with
    | .debug => "DEBUG"
    | .info => "INFO"
  level ++ ":" ++ m.component ++ ":" ++ m.text ++ "\n"

/-- A message about the reading of a file. -/
def readingMessage (text : String) : LogMessage := ⟨.debug, "pieparse.api", text⟩

/-- A message about the command's progress. -/
def progressMessage (text : String) : LogMessage := ⟨.info, "pieparse.cli", text⟩

/-! ## Reading the files -/

/-- The messages that reading one file leaves in the log, given how it went. -/
def readingLog (fs : FileSystem) (path : String)
    (outcome : Except FileReadError (List TopLevel)) : List LogMessage :=
  match fs.resolve path with
  | .error _ => []
  | .ok p =>
    readingMessage ("reading " ++ p.toText) ::
      match outcome with
      | .ok forms =>
        [readingMessage
          ("parsed " ++ toString forms.length ++ " top-level forms from " ++ p.toText)]
      | .error (.read (.report r)) =>
        if r.detail.isSome then
          [readingMessage
            ("recursion limit hit parsing " ++ p.toText ++ " near " ++ r.failure.pos.toText)]
        else []
      | .error _ => []

/-- The forms of the files that have been read, by path, in the order of their first mention. -/
abbrev Results := List (String × List TopLevel)

/-- Records the forms of a file. -/
def Results.insert (results : Results) (path : String) (forms : List TopLevel) : Results :=
  if results.any (fun (p, _) => p = path) then
    results.map fun (p, old) => if p = path then (p, forms) else (p, old)
  else results ++ [(path, forms)]

/-- How far the reading of the files got: the results, or why it ended early; and the log. -/
structure FilesRead where
  results : Except FileReadError Results
  log : List LogMessage

/-- Reads files in order, after those in `done`, which left `log`. -/
def readFiles (ceiling : Nat) (fs : FileSystem) : List String → (done : Results) →
    (log : List LogMessage) → FilesRead
  | [], done, log => ⟨.ok done, log⟩
  | path :: rest, done, log =>
    let outcome := parseFile fs path ceiling
    let log := log ++ readingLog fs path outcome
    match outcome with
    | .error e => ⟨.error e, log⟩
    | .ok forms =>
      readFiles ceiling fs rest (done.insert path forms)
        (log ++ [progressMessage (path ++ ": " ++ toString forms.length ++ " forms")])

/-! ## Output -/

/-- One line for each file, with its number of forms. -/
def summary (results : Results) : String :=
  String.join <| results.map fun (path, forms) =>
    path ++ ": " ++ toString forms.length ++ " top-level forms\n"

/-- The forms of all files as one JSON object. -/
def resultsJson (results : Results) : Json :=
  .object (results.map fun (path, forms) => (path, Json.ofTopLevels forms))

/-- How the command ends: with a status, or with an error that it does not handle. -/
inductive Ending where
  | status (code : Nat)
  | unhandled (e : FileReadError)

/-- What the command does. -/
structure Effect where
  ending : Ending
  stdout : String
  stderr : String

/-- What the command does when files are to be read. -/
def readCommand (ceiling : Nat) (fs : FileSystem) (files : List String) (json verbose : Bool) :
    Effect :=
  let read := readFiles ceiling fs files [] []
  let log := if verbose then String.join (read.log.map LogMessage.line) else ""
  match read.results with
  | .ok results =>
    ⟨.status 0, if json then (resultsJson results).print ++ "\n" else summary results, log⟩
  | .error (.read (.report r)) => ⟨.status 1, "", log ++ r.toText ++ "\n"⟩
  | .error e => ⟨.unhandled e, "", log⟩

/-- What the command does with the given arguments. -/
def run (fs : FileSystem) (arguments : List String) (ceiling : Nat := nestingCeiling) : Effect :=
  match parseArguments arguments with
  | .error e => ⟨.status 2, "", usageText e⟩
  | .ok .help => ⟨.status 0, helpText, ""⟩
  | .ok (.read files json verbose) => readCommand ceiling fs files json verbose

end PieSyntax.CommandLine
