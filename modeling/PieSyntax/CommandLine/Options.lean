import PieSyntax.Text.Basic

/-!
# The arguments of the command

Arguments are switches and files.  A long switch may be cut short as long as one switch is left
that it can mean; short switches may share a dash.  The files stand together: once a switch has
come after them, further ones are not recognized.  After `--`, every argument is a file.

A wrong argument is reported at once, in the order of the arguments.  When none is wrong in
itself, missing files are reported before arguments that are not recognized.
-/

namespace PieSyntax.CommandLine

/-- The switches of the command. -/
inductive Switch where
  | help
  | json
  | verbose
  deriving DecidableEq, Repr

namespace Switch

/-- The spellings of a switch. -/
def spellings : Switch → List String
  | .help => ["-h", "--help"]
  | .json => ["--json"]
  | .verbose => ["-v", "--verbose"]

/-- A switch as it is named in messages. -/
def toText (s : Switch) : String := "/".intercalate s.spellings

/-- Every spelling with its switch. -/
def table : List (String × Switch) :=
  [Switch.help, .json, .verbose].flatMap fun s => s.spellings.map fun spelling => (spelling, s)

end Switch

/-- What is wrong with the arguments. -/
inductive UsageError where
  | missingFiles
  | unrecognized (arguments : List String)
  | unexpectedValue (s : Switch) (value : String)
  | ambiguous (argument : String) (candidates : List String)

/-- The message for wrong arguments. -/
def UsageError.message : UsageError → String
  | .missingFiles => "the following arguments are required: files"
  | .unrecognized arguments => "unrecognized arguments: " ++ " ".intercalate arguments
  | .unexpectedValue s value =>
    "argument " ++ s.toText ++ ": ignored explicit argument " ++ quoted value
  | .ambiguous argument candidates =>
    "ambiguous option: " ++ argument ++ " could match " ++ ", ".intercalate candidates

/-! ## One argument -/

/-- What a single argument is taken for. -/
inductive Argument where
  /-- A file. -/
  | file (path : String)
  /-- The sign that only files follow. -/
  | terminator
  /-- A switch in one of its spellings, possibly with a value. -/
  | switch (spelling : String) (s : Switch) (value : Option String)
  /-- A switch that does not exist. -/
  | unknown (argument : String)

/-- Splits an argument at its first equals sign. -/
def splitValue (argument : String) : String × Option String :=
  match argument.toList.span (· ≠ '=') with
  | (_, []) => (argument, none)
  | (name, _ :: value) => (String.ofList name, some (String.ofList value))

/-- The switches that an argument may stand for, with their spellings and the value given to
them: a long argument stands for every switch it is the beginning of, a short one for the switch
of its first letter, what follows being its value. -/
def candidates (argument : String) : List (String × Switch × Option String) :=
  match argument.toList with
  | '-' :: '-' :: _ =>
    let (name, value) := splitValue argument
    (Switch.table.filter fun (spelling, _) => spelling.startsWith name).map
      fun (spelling, s) => (spelling, s, value)
  | '-' :: letter :: rest =>
    (Switch.table.filter fun (spelling, _) => spelling = String.ofList ['-', letter]).map
      fun (spelling, s) => (spelling, s, some (String.ofList rest))
  | _ => []

/-- Leaves out the last character if it is a newline. -/
def withoutFinalNewline (s : Text) : Text := if s.getLast? = some '\n' then s.dropLast else s

/-- Whether an argument reads as a negative number: a minus sign and decimal digits of any script,
with a point before some of them or not.  A newline at the very end is passed over. -/
def isNegativeNumber (argument : String) : Bool :=
  match argument.toList with
  | '-' :: number =>
    match (withoutFinalNewline number).span isDecimalDigit with
    | (whole, []) => !whole.isEmpty
    | (_, '.' :: fraction) => !fraction.isEmpty && fraction.all isDecimalDigit
    | _ => false
  | _ => false

/-- What an argument before the terminator is taken for. -/
def classify (argument : String) : Except UsageError Argument :=
  if argument = "-" ∨ ¬ argument.startsWith "-" then .ok (.file argument)
  else if argument = "--" then .ok .terminator
  else
    let (name, value) := splitValue argument
    match Switch.table.lookup argument, Switch.table.lookup name with
    | some s, _ => .ok (.switch argument s none)
    | none, some s => .ok (.switch name s value)
    | none, none =>
      match candidates argument with
      | [(spelling, s, value)] => .ok (.switch spelling s value)
      | [] =>
        if isNegativeNumber argument || argument.contains ' ' then .ok (.file argument)
        else .ok (.unknown argument)
      | several => .error (.ambiguous argument (several.map (·.1)))

/-- What the arguments are taken for, in order. -/
def classifyAll : List String → Except UsageError (List Argument)
  | [] => .ok []
  | argument :: rest =>
    match classify argument with
    | .error e => .error e
    | .ok .terminator => .ok (.terminator :: rest.map .file)
    | .ok a =>
      match classifyAll rest with
      | .error e => .error e
      | .ok as => .ok (a :: as)

/-! ## All arguments -/

/-- The switches that share a dash: the letters of `value` follow the switch `s`. -/
def cluster (s : Switch) (value : String) : List Char → Except UsageError (List Switch)
  | [] => .ok [s]
  | letter :: rest =>
    match Switch.table.lookup (String.ofList ['-', letter]) with
    | none => .error (.unexpectedValue s value)
    | some next =>
      match cluster next (String.ofList rest) rest with
      | .error e => .error e
      | .ok more => .ok (s :: more)

/-- The switches that a switch argument stands for.  No switch takes a value, so what follows a
short one must be further letters. -/
def expand (spelling : String) (s : Switch) : Option String → Except UsageError (List Switch)
  | none => .ok [s]
  | some value =>
    if spelling.startsWith "--" ∨ value = "" then .error (.unexpectedValue s value)
    else cluster s value value.toList

/-- Where the scan stands with respect to the files. -/
inductive FilePhase where
  | before
  | inside
  | after
  deriving DecidableEq, Repr

/-- What has been found so far.  Files and unrecognized arguments are in reverse order. -/
structure Scan where
  phase : FilePhase
  files : List String
  unrecognized : List String
  json : Bool
  verbose : Bool

/-- What the arguments ask for. -/
inductive Request where
  | help
  | read (files : List String) (json verbose : Bool)

namespace Scan

/-- Nothing found. -/
def empty : Scan := ⟨.before, [], [], false, false⟩

/-- A switch closes the group of files. -/
def close (s : Scan) : Scan :=
  if s.phase = .inside then { s with phase := .after } else s

/-- Takes in the switches of one argument; none is left over when help is asked for. -/
def setAll (s : Scan) : List Switch → Option Scan
  | [] => some s
  | .help :: _ => none
  | .json :: rest => setAll { s with json := true } rest
  | .verbose :: rest => setAll { s with verbose := true } rest

/-- What is asked for once all arguments have been seen. -/
def finish (s : Scan) : Except UsageError Request :=
  if s.files.isEmpty then .error .missingFiles
  else if s.unrecognized.isEmpty then .ok (.read s.files.reverse s.json s.verbose)
  else .error (.unrecognized s.unrecognized.reverse)

end Scan

/-- Goes through the arguments. -/
def scan : List Argument → Scan → Except UsageError Request
  | [], s => s.finish
  | .file path :: rest, s =>
    match s.phase with
    | .after => scan rest { s with unrecognized := path :: s.unrecognized }
    | _ => scan rest { s with phase := .inside, files := path :: s.files }
  | .terminator :: rest, s =>
    match s.phase with
    | .after => scan rest { s with unrecognized := "--" :: s.unrecognized }
    | _ => scan rest s
  | .unknown argument :: rest, s =>
    scan rest { s.close with unrecognized := argument :: s.unrecognized }
  | .switch spelling switch value :: rest, s =>
    match expand spelling switch value with
    | .error e => .error e
    | .ok switches =>
      match s.close.setAll switches with
      | none => .ok .help
      | some s => scan rest s

/-- What the arguments of the command ask for. -/
def parseArguments (arguments : List String) : Except UsageError Request :=
  match classifyAll arguments with
  | .error e => .error e
  | .ok as => scan as .empty

end PieSyntax.CommandLine
