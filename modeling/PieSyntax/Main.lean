import PieSyntax.CommandLine.Run

/-!
# The executable

Everything that the command does is decided by `CommandLine.run`.  This module finds out where
paths start, reads the files that the arguments name, and carries out the effect.
-/

open PieSyntax

/-- The current directory and the user's home directory.  Other users' homes are not looked
up. -/
def systemOrigins : IO PathOrigins := do
  let current ← IO.currentDir
  let home ← IO.getEnv "HOME"
  let ofPath (path : String) : ResolvedPath := ResolvedPath.follow [] (pathComponents path)
  return ⟨ofPath current.toString, fun user => if user.isEmpty then home.map ofPath else none⟩

/-- The code of the error that a name or a path is too long: the system's number, negated. -/
def nameTooLongCode : UInt32 := 0 - 36

/-- The bytes of the file at a resolved path.  A path through a file that is no directory cannot
be opened; a directory can be opened but not read, and the error then names no path. -/
def readBytes (p : ResolvedPath) : IO (Except FileError (List UInt8)) := do
  try
    let bytes ← IO.FS.readBinFile p.toText
    return .ok bytes.toList
  catch e =>
    match e with
    | .noFileOrDirectory .. => return .error (.notFound p)
    | .inappropriateType (some _) .. => return .error (.notDirectory p)
    | .inappropriateType none .. => return .error (.isDirectory p)
    | .invalidArgument _ code _ =>
      if code = nameTooLongCode then return .error (.nameTooLong p)
      else return .error (.system e.toString)
    | e => return .error (.system e.toString)

/-- The files that the arguments name, as a file system of their own. -/
def namedFiles (arguments : List String) : IO FileSystem := do
  let origins ← systemOrigins
  let paths := match CommandLine.parseArguments arguments with
    | .ok (.read files _ _) => files.filterMap fun path => (origins.resolve path).toOption
    | _ => []
  let contents ← paths.mapM fun p => do return (p, ← readBytes p)
  return ⟨origins, fun p => (contents.lookup p).getD (.error (.notFound p))⟩

/-- Runs the command and returns its status. -/
def main (arguments : List String) : IO UInt32 := do
  let effect := CommandLine.run (← namedFiles arguments) arguments
  IO.print effect.stdout
  IO.eprint effect.stderr
  match effect.ending with
  | .status code => return code.toUInt32
  | .unhandled e =>
    IO.eprintln e.message
    return 1
