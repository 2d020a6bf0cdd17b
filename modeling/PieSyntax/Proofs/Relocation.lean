import PieSyntax.Syntax.Expr

/-!
# Changing the locations of a tree

`relocate f` sends every location of a tree through `f` and keeps all else.  With a constant
function it forgets where the parts of a tree stand, so two trees are the same up to locations when
they are sent to the same tree; with a translation it moves a tree to another place of a text.

## Main results

* `relocateExprs_eq_map`, `relocateTypedBinders_eq_map`, `Arguments.toList_relocate` — lists of parts
  are changed part by part.
-/

namespace PieSyntax

namespace Location

/-- The place of a tree of which it is forgotten where it stands. -/
def nowhere : Location := ⟨"", Position.start, Position.start⟩

/-- Sends both ends of a span through `f`. -/
def map (f : Position → Position) (l : Location) : Location := ⟨l.source, f l.start, f l.finish⟩

end Location

/-- Changes the place of a name that an abstraction binds. -/
def Binder.relocate (f : Location → Location) (b : Binder) : Binder := ⟨f b.loc, b.name⟩

mutual

/-- Changes the locations within a node. -/
def Node.relocate (f : Location → Location) : Node → Node
  | .var name => .var name
  | .tick name => .tick name
  | .natLit value => .natLit value
  | .constant c => .constant c
  | .form k args => .form k (args.relocate f)
  | .lambda binders body => .lambda (binders.map (Binder.relocate f)) (relocateExpr f body)
  | .quantified q binders body =>
      .quantified q (relocateTypedBinders f binders) (relocateExpr f body)
  | .arrow arg rest => .arrow (relocateExpr f arg) (relocateExprs f rest)
  | .app head args => .app (relocateExpr f head) (relocateExprs f args)

/-- Changes the locations of an expression. -/
def relocateExpr (f : Location → Location) : Located Node → Located Node
  | ⟨loc, node⟩ => ⟨f loc, node.relocate f⟩

/-- Changes the locations of expressions. -/
def relocateExprs (f : Location → Location) : List (Located Node) → List (Located Node)
  | [] => []
  | e :: es => relocateExpr f e :: relocateExprs f es

/-- Changes the locations of the arguments of a form. -/
def Arguments.relocate {n : Nat} (f : Location → Location) : Arguments n → Arguments n
  | .nil => .nil
  | .cons first rest => .cons (relocateExpr f first) (rest.relocate f)

/-- Changes the locations of a bound name and of its type. -/
def TypedBinder.relocate (f : Location → Location) : TypedBinder → TypedBinder
  | .mk loc name type => .mk (f loc) name (relocateExpr f type)

/-- Changes the locations of bound names and of their types. -/
def relocateTypedBinders (f : Location → Location) : List TypedBinder → List TypedBinder
  | [] => []
  | b :: bs => b.relocate f :: relocateTypedBinders f bs

end

/-- Changes the locations of a name. -/
def relocateName (f : Location → Location) (x : Located Text) : Located Text := ⟨f x.loc, x.value⟩

/-- Changes the locations within a statement. -/
def Statement.relocate (f : Location → Location) : Statement → Statement
  | .claim name type => .claim (relocateName f name) (relocateExpr f type)
  | .define name value => .define (relocateName f name) (relocateExpr f value)
  | .checkSame type left right =>
      .checkSame (relocateExpr f type) (relocateExpr f left) (relocateExpr f right)
  | .expr e => .expr (relocateExpr f e)

/-- Changes the locations of a top-level form. -/
def relocateTopLevel (f : Location → Location) (t : TopLevel) : TopLevel :=
  ⟨f t.loc, t.value.relocate f⟩

/-- A top-level form of which it is forgotten where its parts stand.  Forms are the same up to
locations when they are the same bare forms. -/
def TopLevel.bare (t : TopLevel) : TopLevel := relocateTopLevel (fun _ => .nowhere) t

/-! ## Lists of parts -/

variable (f g : Location → Location)

@[simp] theorem relocateExpr_loc (e : Expr) : (relocateExpr f e).loc = f e.loc := by
  cases e with
  | mk loc node => rw [relocateExpr]

theorem relocateExprs_eq_map (es : List Expr) : relocateExprs f es = es.map (relocateExpr f) := by
  induction es with
  | nil => rw [relocateExprs, List.map_nil]
  | cons e es ih => rw [relocateExprs, ih, List.map_cons]

theorem relocateTypedBinders_eq_map (bs : List TypedBinder) :
    relocateTypedBinders f bs = bs.map (TypedBinder.relocate f) := by
  induction bs with
  | nil => rw [relocateTypedBinders, List.map_nil]
  | cons b bs ih => rw [relocateTypedBinders, ih, List.map_cons]

theorem Arguments.toList_relocate {n : Nat} (args : Arguments n) :
    (args.relocate f).toList = args.toList.map (relocateExpr f) := by
  induction n with
  | zero =>
      cases args with
      | nil => rw [Arguments.relocate, toList, List.map_nil]
  | succ n ih =>
      cases args with
      | cons first rest => rw [Arguments.relocate, toList, toList, ih rest, List.map_cons]

end PieSyntax
