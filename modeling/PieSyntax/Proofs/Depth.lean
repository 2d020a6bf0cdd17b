import PieSyntax.Proofs.Relocation

/-!
# Depth of nesting

How deeply the expressions of a tree are nested.  An expression is read one level below the list in
which it stands, so its depth says how much room it takes under the ceiling.

## Main results

* `depth_relocateExpr`, `TopLevel.depth_relocate` — depth does not depend on locations.
-/

namespace PieSyntax

mutual

/-- How deeply expressions are nested within a node. -/
def Node.depth : Node → Nat
  | .var _ => 0
  | .tick _ => 0
  | .natLit _ => 0
  | .constant _ => 0
  | .form _ args => args.depth + 1
  | .lambda _ body => exprDepth body + 1
  | .quantified _ bs body => max (typedBindersDepth bs) (exprDepth body) + 1
  | .arrow arg rest => max (exprDepth arg) (exprsDepth rest) + 1
  | .app head args => max (exprDepth head) (exprsDepth args) + 1

/-- How deeply expressions are nested within an expression. -/
def exprDepth : Located Node → Nat
  | ⟨_, node⟩ => node.depth

/-- The greatest depth of several expressions. -/
def exprsDepth : List (Located Node) → Nat
  | [] => 0
  | e :: es => max (exprDepth e) (exprsDepth es)

/-- The greatest depth of the arguments of a form. -/
def Arguments.depth {n : Nat} : Arguments n → Nat
  | .nil => 0
  | .cons first rest => max (exprDepth first) rest.depth

/-- The depth of the type of a bound name. -/
def TypedBinder.depth : TypedBinder → Nat
  | .mk _ _ type => exprDepth type

/-- The greatest depth of the types of bound names. -/
def typedBindersDepth : List TypedBinder → Nat
  | [] => 0
  | b :: bs => max b.depth (typedBindersDepth bs)

end

/-- How deeply expressions are nested within a statement. -/
def Statement.depth : Statement → Nat
  | .claim _ type => exprDepth type + 1
  | .define _ value => exprDepth value + 1
  | .checkSame type left right => max (exprDepth type) (max (exprDepth left) (exprDepth right)) + 1
  | .expr e => exprDepth e

/-- How deeply expressions are nested within a top-level form. -/
def TopLevel.depth (t : TopLevel) : Nat := t.value.depth

theorem Arguments.depth_eq {n : Nat} (args : Arguments n) :
    args.depth = exprsDepth args.toList := by
  induction n with
  | zero =>
      cases args with
      | nil => rfl
  | succ n ih =>
      cases args with
      | cons first rest => rw [Arguments.depth, toList, exprsDepth, ih]

/-! ## Locations -/

variable (f : Location → Location)

mutual

@[simp] theorem depth_relocate (node : Node) : (node.relocate f).depth = node.depth := by
  match node with
  | .var name => rfl
  | .tick name => rfl
  | .natLit value => rfl
  | .constant c => rfl
  | .form k args => simp only [Node.relocate, Node.depth, depth_relocateArguments args]
  | .lambda bs body => simp only [Node.relocate, Node.depth, depth_relocateExpr body]
  | .quantified q bs body =>
      simp only [Node.relocate, Node.depth, depth_relocateTypedBinders bs, depth_relocateExpr body]
  | .arrow arg rest =>
      simp only [Node.relocate, Node.depth, depth_relocateExpr arg, depth_relocateExprs rest]
  | .app head args =>
      simp only [Node.relocate, Node.depth, depth_relocateExpr head, depth_relocateExprs args]

@[simp] theorem depth_relocateExpr (e : Located Node) :
    exprDepth (relocateExpr f e) = exprDepth e := by
  match e with
  | ⟨loc, node⟩ => simp only [relocateExpr, exprDepth, depth_relocate node]

@[simp] theorem depth_relocateExprs (es : List (Located Node)) :
    exprsDepth (relocateExprs f es) = exprsDepth es := by
  match es with
  | [] => rfl
  | e :: es => simp only [relocateExprs, exprsDepth, depth_relocateExpr e, depth_relocateExprs es]

@[simp] theorem depth_relocateArguments {n : Nat} (args : Arguments n) :
    (args.relocate f).depth = args.depth := by
  match args with
  | .nil => rfl
  | .cons first rest =>
      simp only [Arguments.relocate, Arguments.depth, depth_relocateExpr first,
        depth_relocateArguments rest]

@[simp] theorem depth_relocateTypedBinder (b : TypedBinder) :
    (b.relocate f).depth = b.depth := by
  match b with
  | .mk loc name type =>
      simp only [TypedBinder.relocate, TypedBinder.depth, depth_relocateExpr type]

@[simp] theorem depth_relocateTypedBinders (bs : List TypedBinder) :
    typedBindersDepth (relocateTypedBinders f bs) = typedBindersDepth bs := by
  match bs with
  | [] => rfl
  | b :: bs =>
      simp only [relocateTypedBinders, typedBindersDepth, depth_relocateTypedBinder b,
        depth_relocateTypedBinders bs]

end

theorem TopLevel.depth_relocate (t : TopLevel) : (relocateTopLevel f t).depth = t.depth := by
  obtain ⟨loc, statement⟩ := t
  cases statement <;>
    simp only [relocateTopLevel, TopLevel.depth, Statement.relocate, Statement.depth,
      depth_relocateExpr]

/-- Forms that are the same up to locations are nested equally deeply. -/
theorem TopLevel.depth_eq_of_bare {t t' : TopLevel} (h : t.bare = t'.bare) :
    t.depth = t'.depth := by
  rw [← TopLevel.depth_relocate (fun _ => .nowhere) t, ← TopLevel.depth_relocate (fun _ => .nowhere) t']
  exact congrArg TopLevel.depth h

end PieSyntax
