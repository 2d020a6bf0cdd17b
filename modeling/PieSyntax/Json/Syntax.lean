import PieSyntax.Json.Value
import PieSyntax.Syntax.Expr

/-!
# Syntax trees as JSON

A tree is written as nested objects.  Every object names its kind and has one entry for each
field; positions, locations and located values are objects as well, so nothing that the reader
found is lost.
-/

namespace PieSyntax.Json

/-- A text as a JSON string. -/
def ofText (t : Text) : Json := .string (String.ofList t)

/-- An object of the given kind. -/
def ofKind (kind : String) (fields : List (String × Json)) : Json :=
  .object (("kind", .string kind) :: fields)

/-- A position as JSON. -/
def ofPosition (p : Position) : Json :=
  ofKind "Position" [("line", .number p.line), ("column", .number p.column)]

/-- A location as JSON. -/
def ofLocation (l : Location) : Json :=
  ofKind "Location"
    [("source", .string l.source), ("start", ofPosition l.start), ("end", ofPosition l.finish)]

/-- A value at its place as JSON. -/
def atLocation (l : Location) (value : Json) : Json :=
  ofKind "Located" [("loc", ofLocation l), ("value", value)]

/-- A bound name as JSON. -/
def ofBinder (b : Binder) : Json :=
  ofKind "Binder" [("loc", ofLocation b.loc), ("name", ofText b.name)]

mutual

/-- A node as JSON. -/
def ofNode : Node → Json
  | .var name => ofKind "Var" [("name", ofText name)]
  | .tick name => ofKind "Tick" [("name", ofText name)]
  | .natLit value => ofKind "NatLit" [("value", .number value)]
  | .constant c => ofKind c.kind []
  | .form f args => ofKind f.kind (f.fields.zip (ofArguments args))
  | .lambda binders body =>
    ofKind "Lambda" [("binders", .array (binders.map ofBinder)), ("body", ofExpr body)]
  | .quantified q binders body =>
    ofKind q.kind [("binders", .array (ofTypedBinders binders)), ("body", ofExpr body)]
  | .arrow arg rest => ofKind "Arrow" [("arg", ofExpr arg), ("rest", .array (ofExprs rest))]
  | .app head args => ofKind "App" [("fun", ofExpr head), ("args", .array (ofExprs args))]

/-- An expression as JSON. -/
def ofExpr : Located Node → Json
  | ⟨loc, node⟩ => atLocation loc (ofNode node)

/-- Expressions as JSON. -/
def ofExprs : List (Located Node) → List Json
  | [] => []
  | e :: es => ofExpr e :: ofExprs es

/-- The arguments of a form as JSON. -/
def ofArguments {n : Nat} : Arguments n → List Json
  | .nil => []
  | .cons first rest => ofExpr first :: ofArguments rest

/-- A bound name with its type as JSON. -/
def ofTypedBinder : TypedBinder → Json
  | .mk loc name type =>
    ofKind "TypedBinder" [("loc", ofLocation loc), ("name", ofText name), ("type", ofExpr type)]

/-- Bound names with their types as JSON. -/
def ofTypedBinders : List TypedBinder → List Json
  | [] => []
  | b :: bs => ofTypedBinder b :: ofTypedBinders bs

end

/-- A located name as JSON. -/
def ofName (name : Located Text) : Json := atLocation name.loc (ofText name.value)

/-- A statement as JSON. -/
def ofStatement : Statement → Json
  | .claim name type => ofKind "Claim" [("name", ofName name), ("type", ofExpr type)]
  | .define name value => ofKind "Define" [("name", ofName name), ("value", ofExpr value)]
  | .checkSame type left right =>
    ofKind "CheckSame" [("type", ofExpr type), ("left", ofExpr left), ("right", ofExpr right)]
  | .expr e => ofKind "Example" [("expr", ofExpr e)]

/-- A top-level form as JSON. -/
def ofTopLevel (t : TopLevel) : Json := atLocation t.loc (ofStatement t.value)

/-- Top-level forms as JSON. -/
def ofTopLevels (ts : List TopLevel) : Json := .array (ts.map ofTopLevel)

end PieSyntax.Json
