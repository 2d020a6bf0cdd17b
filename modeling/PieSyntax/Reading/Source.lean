import PieSyntax.Files.FileSystem
import PieSyntax.Syntax.Grammar

/-!
# Reading programs, expressions and sequences of forms

Three ways into the grammar: a complete program with its first line, a single expression, and the
forms of an interactive session one after the other.  Each ends in what was read or in an error;
an error is a report for the user, or an interruption of the run that no report stands for.  A program
may also be read from a file; the name of the source is then the resolved path of the file.

Productions may be nested up to a ceiling.  How many there is room for depends on the system that the
parser runs on, so every reader is given the ceiling; the one that it has otherwise is an estimate.
When a text goes beyond the ceiling, the report points at the most deeply nested parenthesis.  That
place is found by a scan of the text that was still to be read: it counts parentheses and leaves out
everything from a semicolon to the end of its line.
-/

namespace PieSyntax

/-! ## Nesting that is too deep -/

/-- How many productions may be active inside one another, where nothing else is said. -/
def nestingCeiling : Nat := 2000

/-- The message for nesting beyond the ceiling. -/
def tooDeepMessage : String := Interruption.tooDeep.message

/-- The state of the scan for the deepest parenthesis. -/
structure NestingScan where
  /-- The place of the next character. -/
  pos : Position
  /-- Parentheses opened so far, less those closed. -/
  depth : Int
  /-- The greatest depth so far. -/
  deepest : Int
  /-- The parenthesis that first reached it. -/
  deepestPos : Position
  /-- Whether the scan is inside a line comment. -/
  inComment : Bool

namespace NestingScan

/-- The scan before the first character. -/
def start (p : Position) : NestingScan := ⟨p, 0, 0, p, false⟩

/-- The scan after one more character. -/
def step (s : NestingScan) (c : Char) : NestingScan :=
  let pos := s.pos.advanceChar c
  if s.inComment then { s with pos, inComment := c ≠ '\n' }
  else if c = ';' then { s with pos, inComment := true }
  else if c = '(' then
    if s.deepest < s.depth + 1 then
      { s with pos, depth := s.depth + 1, deepest := s.depth + 1, deepestPos := s.pos }
    else { s with pos, depth := s.depth + 1 }
  else if c = ')' then { s with pos, depth := s.depth - 1 }
  else { s with pos }

end NestingScan

/-- The place of the most deeply nested opening parenthesis in the text that a cursor has still to
read, or the cursor's own place if there is none. -/
def deepestOpenParen (c : Cursor) : Position :=
  (c.rest.foldl NestingScan.step (.start c.pos)).deepestPos

/-! ## Texts -/

/-- Why nothing could be read. -/
inductive ReadError where
  /-- The text is not in the language, or is nested too deeply. -/
  | report (r : Report)
  /-- The run was broken off. -/
  | interrupted (why : Interruption)

/-- The message for a text that could not be read. -/
def ReadError.message : ReadError → String
  | .report r => r.toText
  | .interrupted why => why.message

/-- The source name of texts that come from no file. -/
def memorySource : String := "<memory>"

/-- A value that was read, and the cursor after it. -/
structure Progress (α : Type) where
  value : α
  next : Cursor

/-- The report on nesting beyond the ceiling, for a run that started at `c`. -/
def tooDeepReport (source : String) (text : Text) (c : Cursor) : Report :=
  ⟨source, ⟨deepestOpenParen c, .generic⟩, some text, some tooDeepMessage⟩

/-- Runs a parser of the grammar from a cursor in `text`. -/
def readFrom {α : Type} (source : String) (text : Text) (c : Cursor) (p : PieParser α)
    (ceiling : Nat := nestingCeiling) : Except ReadError (Progress α) :=
  match Grammar.rules.run ceiling source p c with
  | .ok value next => .ok ⟨value, next⟩
  | .fail failure => .error (.report ⟨source, failure, some text, none⟩)
  | .interrupted .tooDeep => .error (.report (tooDeepReport source text c))
  | .interrupted why => .error (.interrupted why)

/-- Reads a complete program. -/
def parseSource (source : String) (text : Text) (ceiling : Nat := nestingCeiling) :
    Except ReadError (List TopLevel) :=
  (readFrom source text (.start text) Grammar.program ceiling).map (·.value)

/-- A single expression with the trivia around it; nothing may be left over unless
`allowTrailing`. -/
def expressionParser (allowTrailing : Bool) : PieParser Expr :=
  let p := Grammar.trivia.andThen Grammar.expr
  if allowTrailing then p else p.followedBy .eof

/-- Reads a single expression. -/
def parseExpression (source : String) (text : Text) (allowTrailing : Bool)
    (ceiling : Nat := nestingCeiling) : Except ReadError Expr :=
  (readFrom source text (.start text) (expressionParser allowTrailing) ceiling).map (·.value)

/-! ## Forms one at a time -/

/-- The forms of a session: those that were read, in order, and the error that ended it, if it
did not reach the end of the text. -/
structure FormSequence where
  forms : List TopLevel
  ending : Option ReadError

/-- Reads forms until the end of the text, from a cursor that trivia have been skipped at.  Each
form takes a character at least, so `fuel`, the text left at the first form, outlasts them. -/
def readForms (ceiling : Nat) (source : String) (text : Text) :
    (fuel : Text) → Cursor → List TopLevel → FormSequence
  | [], _, done => ⟨done.reverse, none⟩
  | _ :: fuel, c, done =>
    if c.atEnd then ⟨done.reverse, none⟩
    else
      match readFrom source text c Grammar.topLevel ceiling with
      | .ok ⟨form, next⟩ => readForms ceiling source text fuel next (form :: done)
      | .error e => ⟨done.reverse, some e⟩

/-- Reads the forms of a text without a first line.  Each is read from where the one before it
ended. -/
def iterForms (source : String) (text : Text) (ceiling : Nat := nestingCeiling) : FormSequence :=
  match readFrom source text (.start text) Grammar.trivia ceiling with
  | .ok ⟨_, next⟩ => readForms ceiling source text next.rest next []
  | .error e => ⟨[], some e⟩

/-! ## Files -/

/-- Why no program could be read from a file. -/
inductive FileReadError where
  | file (e : FileError)
  | read (e : ReadError)

/-- The message for a program that could not be read. -/
def FileReadError.message : FileReadError → String
  | .file e => e.message
  | .read e => e.message

/-- Reads a complete program from a file. -/
def parseFile (fs : FileSystem) (path : String) (ceiling : Nat := nestingCeiling) :
    Except FileReadError (List TopLevel) :=
  match fs.resolve path with
  | .error e => .error (.file e)
  | .ok p =>
    match fs.text p with
    | .error e => .error (.file e)
    | .ok text =>
      match parseSource p.toText text ceiling with
      | .error e => .error (.read e)
      | .ok forms => .ok forms

end PieSyntax
