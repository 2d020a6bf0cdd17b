import PieSyntax.Source.Location
import PieSyntax.Syntax.Keyword

/-!
# Expressions and top-level forms

An expression is a located node.  Forms with a fixed number of arguments share one constructor,
whose arguments are in the order of the form's fields and exactly as many; applications, arrows
and binder lists have any number.
-/

namespace PieSyntax

/-- A name that an abstraction binds, at the place where it stands. -/
structure Binder where
  loc : Location
  name : Text
  deriving DecidableEq, Repr

mutual

/-- What an expression is. -/
inductive Node where
  /-- A name. -/
  | var (name : Text)
  /-- A quoted atom, such as `'apple`. -/
  | tick (name : Text)
  /-- A numeral. -/
  | natLit (value : Nat)
  /-- A keyword that stands alone. -/
  | constant (c : Constant)
  /-- A form with the arguments that its fields name. -/
  | form (f : Form) (args : Arguments f.arity)
  /-- An abstraction over names. -/
  | lambda (binders : List Binder) (body : Located Node)
  /-- A dependent type over typed names. -/
  | quantified (q : Quantifier) (binders : List TypedBinder) (body : Located Node)
  /-- A function type; the last of `rest` is the result type. -/
  | arrow (arg : Located Node) (rest : List (Located Node))
  /-- An application to one or more arguments. -/
  | app (head : Located Node) (args : List (Located Node))

/-- A given number of expressions. -/
inductive Arguments : Nat → Type where
  | nil : Arguments 0
  | cons {n : Nat} (first : Located Node) (rest : Arguments n) : Arguments (n + 1)

/-- A name that a dependent type binds, with its type. -/
inductive TypedBinder where
  | mk (loc : Location) (name : Text) (type : Located Node)

end

/-- An expression: a node at its place. -/
abbrev Expr := Located Node

namespace Arguments

/-- The expressions in order. -/
def toList {n : Nat} : Arguments n → List Expr
  | .nil => []
  | .cons first rest => first :: rest.toList

theorem length_toList {n : Nat} (args : Arguments n) : args.toList.length = n := by
  induction n with
  | zero => cases args; rfl
  | succ n ih =>
    cases args with
    | cons first rest => rw [toList, List.length_cons, ih rest]

theorem toList_injective {n : Nat} {args args' : Arguments n} (h : args.toList = args'.toList) :
    args = args' := by
  induction n with
  | zero => cases args; cases args'; rfl
  | succ n ih =>
    cases args with
    | cons first rest =>
      cases args' with
      | cons first' rest' =>
        simp only [toList, List.cons.injEq] at h
        rw [h.1, ih h.2]

end Arguments

namespace TypedBinder

/-- Where the name stands. -/
def loc : TypedBinder → Location
  | .mk loc _ _ => loc

/-- The name that is bound. -/
def name : TypedBinder → Text
  | .mk _ name _ => name

/-- The type of the name. -/
def type : TypedBinder → Expr
  | .mk _ _ type => type

end TypedBinder

/-- The kind of a node, as it is shown. -/
def Node.kind : Node → String
  | .var _ => "Var"
  | .tick _ => "Tick"
  | .natLit _ => "NatLit"
  | .constant c => c.kind
  | .form f _ => f.kind
  | .lambda _ _ => "Lambda"
  | .quantified q _ _ => q.kind
  | .arrow _ _ => "Arrow"
  | .app _ _ => "App"

/-! ## Parts of an arrow -/

/-- The types of the arguments of an arrow: all its parts but the last. -/
def arrowArguments (arg : Expr) (rest : List Expr) : List Expr := arg :: rest.dropLast

/-- The result type of an arrow: the last of its parts. -/
def arrowResult? (rest : List Expr) : Option Expr := rest.getLast?

/-! ## Top-level forms -/

/-- What a top-level form is. -/
inductive Statement where
  /-- A name is claimed to have a type. -/
  | claim (name : Located Text) (type : Expr)
  /-- A name is given a value. -/
  | define (name : Located Text) (value : Expr)
  /-- Two expressions are to be the same at a type. -/
  | checkSame (type left right : Expr)
  /-- An expression stands for itself. -/
  | expr (e : Expr)

/-- A top-level form: a statement at its place. -/
abbrev TopLevel := Located Statement

/-- The kind of a statement, as it is shown. -/
def Statement.kind : Statement → String
  | .claim _ _ => Command.claim.kind
  | .define _ _ => Command.define.kind
  | .checkSame _ _ _ => Command.checkSame.kind
  | .expr _ => "Example"

end PieSyntax
