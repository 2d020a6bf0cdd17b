import PieSyntax.Text.Utf8

/-!
# Files

A path is resolved to the list of directory names that leads to it from the root.  Empty and dot
components say nothing, a tilde at the front of a relative path stands for a home directory, and
two dots go back to the directory above; links are not followed.  No name holds a null character.

A file system says where paths start and what reading a resolved path gives.  The text of a file
is its bytes decoded as UTF-8, with every line ending turned into a newline: a file may end its lines
with a newline, a carriage return, or both in that order.
-/

namespace PieSyntax

/-! ## Paths -/

/-- A resolved path: the names from the root down. -/
abbrev ResolvedPath := List String

namespace ResolvedPath

/-- A resolved path is written with a slash before each name. -/
def toText (p : ResolvedPath) : String := "/" ++ "/".intercalate p

/-- One component further: two dots leave the last directory. -/
def enter (p : ResolvedPath) (component : String) : ResolvedPath :=
  if component = ".." then p.dropLast else p ++ [component]

/-- The path reached from `p` along the given components. -/
def follow (p : ResolvedPath) (components : List String) : ResolvedPath := components.foldl enter p

end ResolvedPath

/-- The components of a path that say something. -/
def pathComponents (path : String) : List String :=
  (path.splitOn "/").filter fun c => c ≠ "" ∧ c ≠ "."

/-- Why a path cannot be resolved. -/
inductive PathError where
  | homeUnknown
  | nullCharacter
  deriving DecidableEq, Repr

/-- The message for a path that cannot be resolved. -/
def PathError.message : PathError → String
  | .homeUnknown => "Could not determine home directory."
  | .nullCharacter => "embedded null byte"

/-- Where paths start: the current directory, and the home directory of each user that is known,
the user's own standing under the empty name. -/
structure PathOrigins where
  current : ResolvedPath
  home : String → Option ResolvedPath

namespace PathOrigins

/-- Where a path starts, and the components that it goes on with.  The user of a home directory is
looked up before the other components are seen. -/
def locate (origins : PathOrigins) (path : String) :
    Except PathError (ResolvedPath × List String) :=
  let components := pathComponents path
  if path.startsWith "/" then .ok ([], components)
  else
    match components with
    | [] => .ok (origins.current, [])
    | first :: rest =>
      match first.toList with
      | '~' :: user =>
        if '\x00' ∈ user then .error .nullCharacter
        else
          match origins.home (String.ofList user) with
          | some home => .ok (home, rest)
          | none => .error .homeUnknown
      | _ => .ok (origins.current, components)

/-- The resolved form of a path. -/
def resolve (origins : PathOrigins) (path : String) : Except PathError ResolvedPath :=
  match origins.locate path with
  | .error e => .error e
  | .ok (start, components) =>
    if components.any (·.toList.contains '\x00') then .error .nullCharacter
    else .ok (start.follow components)

end PathOrigins

/-! ## Line endings -/

/-- Puts a newline for every line ending.  `afterReturn` says that a carriage return has just been
replaced, so that a newline now belongs to it. -/
def unifyNewlinesFrom : Text → (afterReturn : Bool) → (done : Text) → Text
  | [], _, done => done.reverse
  | '\r' :: rest, _, done => unifyNewlinesFrom rest true ('\n' :: done)
  | '\n' :: rest, true, done => unifyNewlinesFrom rest false done
  | c :: rest, _, done => unifyNewlinesFrom rest false (c :: done)

/-- The text with a newline for every line ending. -/
def unifyNewlines (text : Text) : Text := unifyNewlinesFrom text false []

/-! ## Reading the text of a file -/

/-- Why a file could not be read. -/
inductive FileError where
  | unresolved (e : PathError)
  | notFound (path : ResolvedPath)
  | isDirectory (path : ResolvedPath)
  | notDirectory (path : ResolvedPath)
  | nameTooLong (path : ResolvedPath)
  | undecodable (e : Utf8.DecodeError)
  /-- Reading failed in some other way, which the system describes. -/
  | system (description : String)

/-- The message for a file that could not be read. -/
def FileError.message : FileError → String
  | .unresolved e => e.message
  | .notFound path => "[Errno 2] No such file or directory: " ++ quoted path.toText
  | .isDirectory path => "[Errno 21] Is a directory: " ++ quoted path.toText
  | .notDirectory path => "[Errno 20] Not a directory: " ++ quoted path.toText
  | .nameTooLong path => "[Errno 36] File name too long: " ++ quoted path.toText
  | .undecodable e => e.message
  | .system description => description

/-- Where paths start, and what is found at a resolved path. -/
structure FileSystem where
  origins : PathOrigins
  bytes : ResolvedPath → Except FileError (List UInt8)

namespace FileSystem

/-- The resolved form of a path. -/
def resolve (fs : FileSystem) (path : String) : Except FileError ResolvedPath :=
  match fs.origins.resolve path with
  | .ok p => .ok p
  | .error e => .error (.unresolved e)

/-- The text of the file at a resolved path. -/
def text (fs : FileSystem) (p : ResolvedPath) : Except FileError Text :=
  match fs.bytes p with
  | .error e => .error e
  | .ok bytes =>
    match Utf8.decode bytes with
    | .error e => .error (.undecodable e)
    | .ok decoded => .ok (unifyNewlines decoded)

/-! ## File systems that are given in full -/

/-- The most bytes in a name. -/
def maxNameBytes : Nat := 255

/-- The most bytes in a path as it is written. -/
def maxPathBytes : Nat := 4095

/-- Files and directories, by their resolved paths. -/
structure Tree where
  files : List (ResolvedPath × List UInt8)
  directories : List ResolvedPath

namespace Tree

/-- Whether a directory is at `p`.  What leads to a file or a directory is a directory. -/
def isDirectory (t : Tree) (p : ResolvedPath) : Bool :=
  t.directories.any p.isPrefixOf || t.files.any fun (q, _) => q ≠ p && p.isPrefixOf q

/-- Goes from the directory `here` along the names that are left to `p`; the first name that leads
no further decides what is wrong. -/
def walk (t : Tree) (p : ResolvedPath) : (here : ResolvedPath) → (names : List String) →
    Except FileError (List UInt8)
  | _, [] => .error (.isDirectory p)
  | here, name :: rest =>
    if maxNameBytes < name.utf8ByteSize then .error (.nameTooLong p)
    else
      match t.files.lookup (here ++ [name]) with
      | some content => if rest.isEmpty then .ok content else .error (.notDirectory p)
      | none =>
        if t.isDirectory (here ++ [name]) then walk t p (here ++ [name]) rest
        else .error (.notFound p)

/-- What reading a resolved path gives.  The length of the whole path is looked at first. -/
def read (t : Tree) (p : ResolvedPath) : Except FileError (List UInt8) :=
  if maxPathBytes < p.toText.utf8ByteSize then .error (.nameTooLong p) else t.walk p [] p

end Tree

/-- The file system with the given files and directories. -/
def ofTree (origins : PathOrigins) (t : Tree) : FileSystem := ⟨origins, t.read⟩

end FileSystem

end PieSyntax
