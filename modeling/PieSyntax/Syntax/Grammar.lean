import PieSyntax.Lexical.Token
import PieSyntax.Parsing.Eval
import PieSyntax.Syntax.Expr

/-!
# The grammar

Three productions are recursive: trivia, the data that are commented out within them, and
expressions.  `Grammar.rules` gives each its parser; all other productions are parsers over these
three.

The items of a choice start differently, or differ in the keyword that follows an opening
parenthesis, so at most one of them can succeed: the order in which they are tried is seen in no
answer.
-/

namespace PieSyntax

/-- The productions that are called from within one another. -/
inductive Production where
  | spacing
  | datum
  | expr
  deriving DecidableEq, Repr

/-- What a production returns. -/
def Production.Result : Production → Type
  | .spacing => Unit
  | .datum => Unit
  | .expr => Expr

/-- Parsers over the recursive productions. -/
abbrev PieParser (α : Type) := Parser Production Production.Result α

namespace Grammar

/-- Trivia, by call. -/
def skip : PieParser Unit := .call Production.spacing

/-- A datum within another datum, by call. -/
def innerDatum : PieParser Unit := .call Production.datum

/-- An expression within another construct, by call. -/
def innerExpr : PieParser Expr := .call Production.expr

/-- The first line of every program. -/
def header : Text := "#lang pie".toList

/-! ## Names -/

/-- Whether a word may be used as a name. -/
def isFreeName (name : Text) : Bool := !reserved.contains name

/-- An identifier that is not reserved. -/
def varName : PieParser (Located Text) :=
  ((lexeme skip identifier).guard (fun token => isFreeName token.value)
    (.ofDescription "valid name")).describe "name"

/-- The names that an abstraction binds. -/
def binders : PieParser (List Binder) :=
  parens skip (varName.map fun token => (⟨token.loc, token.value⟩ : Binder)).many1

/-- A name and its type. -/
def typedBinder : PieParser TypedBinder :=
  .named "_typed_binder" <|
    varName.bind fun token => innerExpr.map fun type => .mk token.loc token.value type

/-- The names that a dependent type binds. -/
def typedBinders : PieParser (List TypedBinder) :=
  parens skip (parens skip typedBinder).many1

/-! ## Forms -/

/-- A given number of expressions. -/
def arguments : (n : Nat) → PieParser (Arguments n)
  | 0 => .pure .nil
  | n + 1 => innerExpr.bind fun first => (arguments n).map (Arguments.cons first)

/-- What follows the keyword of a parenthesized expression. -/
def headBody (h : Head) : PieParser Node :=
  .named h.kind <|
    match h with
    | .form f => (arguments f.arity).map (Node.form f)
    | .lambda => binders.bind fun bs => innerExpr.map fun body => .lambda bs body
    | .quantifier q =>
      typedBinders.bind fun bs => innerExpr.map fun body => .quantified q bs body
    | .arrow => innerExpr.bind fun arg => innerExpr.many1.map fun rest => .arrow arg rest

/-- What follows the keyword of a top-level form. -/
def commandBody (c : Command) : PieParser Statement :=
  .named c.kind <|
    match c with
    | .claim => varName.bind fun name => innerExpr.map fun type => .claim name type
    | .define => varName.bind fun name => innerExpr.map fun value => .define name value
    | .checkSame =>
      innerExpr.bind fun type =>
        innerExpr.bind fun left => innerExpr.map fun right => .checkSame type left right

/-- Reads a keyword and then what it announces. -/
def dispatch {α β : Type} (table : List (Text × α)) (body : α → PieParser β) : PieParser β :=
  (keywordTable skip table).bind fun entry => body entry.value

/-! ## Expressions -/

/-- A quoted atom. -/
def tick : PieParser Expr :=
  (lexeme skip ((Parser.char '\'').andThen identifier)).map (·.map Node.tick)

/-- A name that stands for its value. -/
def variableName : PieParser Expr := varName.map (·.map Node.var)

/-- A keyword that stands alone. -/
def constant : PieParser Expr := (keywordTable skip constantTable).map (·.map Node.constant)

/-- A numeral. -/
def natLit : PieParser Expr := (natural skip).map (·.map Node.natLit)

/-- A function and its arguments. -/
def application : PieParser Node :=
  .named "App" <| innerExpr.bind fun head => innerExpr.many1.map fun args => .app head args

/-- A parenthesized expression. -/
def compound : PieParser Expr :=
  parensLocated skip ((dispatch headTable headBody).orElse application)

/-- Any expression. -/
def expr : PieParser Expr :=
  (Parser.choice [tick, variableName, constant, natLit, compound]).describe "expression"

/-! ## Rules -/

/-- Whitespace and comments. -/
def trivia : PieParser Unit := spacing skip innerDatum

/-- A datum and the trivia after it. -/
def anyDatum : PieParser Unit := datum skip innerDatum

/-- The parsers of the recursive productions. -/
def rules : Rules Production Production.Result
  | .spacing => trivia
  | .datum => anyDatum
  | .expr => expr

/-! ## Programs -/

/-- A top-level form. -/
def topLevel : PieParser TopLevel :=
  (parensLocated skip (dispatch commandTable commandBody)).orElse
    (expr.map fun e => ⟨e.loc, .expr e⟩)

/-- The first line and the trivia after it. -/
def hashLang : PieParser Unit := (Parser.text header).andThen trivia

/-- A complete program. -/
def program : PieParser (List TopLevel) := hashLang.andThen (topLevel.manyTill .eof)

end Grammar

end PieSyntax
