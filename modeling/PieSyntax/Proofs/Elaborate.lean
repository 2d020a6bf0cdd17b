import PieSyntax.Proofs.Relocation
import PieSyntax.Syntax.Grammar

/-!
# S-expressions and their elaboration

The language can be read in two stages.  The first knows words, quoted words, numerals and
parentheses, and yields S-expressions; the second, `elaborate`, makes expressions and top-level forms
of them.  It looks at no characters: whether a word is a keyword, how many items a list has and what
stands in the place of binders is all it needs to know.

S-expressions carry labels of any type; `elaborate` is given the locations that the labels stand for.

## Main results

* `elaborate_map`, `elaborateProgram_map` — elaboration does not look at labels.
-/

namespace PieSyntax

/-- Words and numerals, and lists of them, each with a label. -/
inductive SExpr (L : Type) where
  | word (label : L) (name : Text)
  /-- A word after an apostrophe. -/
  | quoted (label : L) (name : Text)
  /-- A run of digits. -/
  | numeral (label : L) (run : Text)
  | list (label : L) (items : List (SExpr L))

variable {L M : Type}

mutual

/-- Changes the labels. -/
def SExpr.map (g : L → M) : SExpr L → SExpr M
  | .word label name => .word (g label) name
  | .quoted label name => .quoted (g label) name
  | .numeral label run => .numeral (g label) run
  | .list label items => .list (g label) (SExpr.mapAll g items)

/-- Changes the labels of several S-expressions. -/
def SExpr.mapAll (g : L → M) : List (SExpr L) → List (SExpr M)
  | [] => []
  | x :: xs => x.map g :: SExpr.mapAll g xs

end

/-! ## Parts -/

/-- What the word announces at the head of a list, if it is a keyword there. -/
def SExpr.head? : SExpr L → Option Head
  | .word _ name => headTable.lookup name
  | _ => none

/-- The command that the word gives at the head of a list on top level. -/
def SExpr.command? : SExpr L → Option Command
  | .word _ name => commandTable.lookup name
  | _ => none

/-- The arguments of a form, if they are as many as it takes. -/
def Arguments.ofList : (n : Nat) → List Expr → Option (Arguments n)
  | 0, [] => some .nil
  | n + 1, e :: es => (Arguments.ofList n es).map (.cons e)
  | _, _ => none

theorem Arguments.ofList_toList {n : Nat} (args : Arguments n) :
    Arguments.ofList n args.toList = some args := by
  induction n with
  | zero =>
      cases args with
      | nil => rfl
  | succ n ih =>
      cases args with
      | cons first rest => rw [toList, Arguments.ofList, ih rest, Option.map_some]

/-! ## Nodes from their parts -/

/-- A form with arguments, if they are as many as it takes. -/
def formNode (f : Form) (es : List Expr) : Option Node :=
  (Arguments.ofList f.arity es).map (.form f)

/-- An abstraction; it binds at least one name. -/
def lambdaNode (bs : List Binder) (body : Expr) : Option Node :=
  if bs.isEmpty then none else some (.lambda bs body)

/-- A dependent type; it binds at least one name. -/
def quantifiedNode (q : Quantifier) (bs : List TypedBinder) (body : Expr) : Option Node :=
  if bs.isEmpty then none else some (.quantified q bs body)

/-- A function type; it has at least one argument and a result. -/
def arrowNode : List Expr → Option Node
  | e :: e' :: es => some (.arrow e (e' :: es))
  | _ => none

/-- An application; it has at least one argument. -/
def appNode (head : Expr) (args : List Expr) : Option Node :=
  if args.isEmpty then none else some (.app head args)

section

variable (place : L → Location)

/-- A word that may be used as a name. -/
def elaborateName : SExpr L → Option (Located Text)
  | .word label name => if Grammar.isFreeName name then some ⟨place label, name⟩ else none
  | _ => none

/-- Words that may be used as names. -/
def elaborateNames : List (SExpr L) → Option (List Binder)
  | [] => some []
  | x :: xs =>
    (elaborateName place x).bind fun name =>
      (elaborateNames xs).map fun bs => ⟨name.loc, name.value⟩ :: bs

/-- The names that an abstraction binds. -/
def elaborateBinders : SExpr L → Option (List Binder)
  | .list _ items => elaborateNames place items
  | _ => none

/-- A word that stands alone: a constant, or else a name. -/
def elaborateWord (name : Text) : Option Node :=
  match constantTable.lookup name with
  | some c => some (.constant c)
  | none => if Grammar.isFreeName name then some (.var name) else none

/-! ## Expressions -/

mutual

/-- The expression that an S-expression stands for. -/
def elaborate : SExpr L → Option Expr
  | .word label name => (elaborateWord name).map fun node => ⟨place label, node⟩
  | .quoted label name => some ⟨place label, .tick name⟩
  | .numeral label run =>
    match readNumeral run with
    | .ok value => some ⟨place label, .natLit value⟩
    | .error _ => none
  | .list label items => (elaborateList items).map fun node => ⟨place label, node⟩

/-- The node that a list stands for: what its keyword announces, or else an application. -/
def elaborateList : List (SExpr L) → Option Node
  | [] => none
  | x :: items =>
    match x.head? with
    | some (.form f) => (elaborateAll items).bind (formNode f)
    | some .lambda =>
      match items with
      | [names, body] =>
        (elaborateBinders place names).bind fun bs => (elaborate body).bind (lambdaNode bs)
      | _ => none
    | some (.quantifier q) =>
      match items with
      | [pairs, body] =>
        (elaborateTypedBinders pairs).bind fun bs => (elaborate body).bind (quantifiedNode q bs)
      | _ => none
    | some .arrow => (elaborateAll items).bind arrowNode
    | none => (elaborate x).bind fun e => (elaborateAll items).bind (appNode e)

/-- The expressions that several S-expressions stand for. -/
def elaborateAll : List (SExpr L) → Option (List Expr)
  | [] => some []
  | x :: xs => (elaborate x).bind fun e => (elaborateAll xs).map (e :: ·)

/-- The typed names that a dependent type binds. -/
def elaborateTypedBinders : SExpr L → Option (List TypedBinder)
  | .list _ pairs => elaboratePairs pairs
  | _ => none

/-- Names with their types. -/
def elaboratePairs : List (SExpr L) → Option (List TypedBinder)
  | [] => some []
  | x :: xs => (elaboratePair x).bind fun b => (elaboratePairs xs).map (b :: ·)

/-- A name with its type. -/
def elaboratePair : SExpr L → Option TypedBinder
  | .list _ [x, y] =>
    (elaborateName place x).bind fun name =>
      (elaborate y).map fun type => .mk name.loc name.value type
  | _ => none

end

/-! ## Lists by their heads -/

variable {x : SExpr L}

theorem elaborateList_form {f : Form} (h : x.head? = some (.form f)) (items : List (SExpr L)) :
    elaborateList place (x :: items) = (elaborateAll place items).bind (formNode f) := by
  rw [elaborateList.eq_def]
  simp only [h]

theorem elaborateList_lambda (h : x.head? = some .lambda) (names body : SExpr L) :
    elaborateList place [x, names, body] =
      (elaborateBinders place names).bind fun bs => (elaborate place body).bind (lambdaNode bs) := by
  rw [elaborateList.eq_def]
  simp only [h]

theorem elaborateList_quantifier {q : Quantifier} (h : x.head? = some (.quantifier q))
    (pairs body : SExpr L) : elaborateList place [x, pairs, body] =
      (elaborateTypedBinders place pairs).bind fun bs =>
        (elaborate place body).bind (quantifiedNode q bs) := by
  rw [elaborateList.eq_def]
  simp only [h]

theorem elaborateList_arrow (h : x.head? = some .arrow) (items : List (SExpr L)) :
    elaborateList place (x :: items) = (elaborateAll place items).bind arrowNode := by
  rw [elaborateList.eq_def]
  simp only [h]

theorem elaborateList_application (h : x.head? = none) (items : List (SExpr L)) :
    elaborateList place (x :: items) =
      (elaborate place x).bind fun e => (elaborateAll place items).bind (appNode e) := by
  rw [elaborateList.eq_def]
  simp only [h]

/-! ## Programs -/

/-- What a command makes of the items after it. -/
def elaborateCommand (c : Command) (items : List (SExpr L)) : Option Statement :=
  match c, items with
  | .claim, [x, y] =>
    (elaborateName place x).bind fun name => (elaborate place y).map (.claim name)
  | .define, [x, y] =>
    (elaborateName place x).bind fun name => (elaborate place y).map (.define name)
  | .checkSame, [x, y, z] =>
    (elaborate place x).bind fun type =>
      (elaborate place y).bind fun left => (elaborate place z).map (.checkSame type left)
  | _, _ => none

/-- The label and the command of a list, and the items after it. -/
def SExpr.asCommand? : SExpr L → Option (L × Command × List (SExpr L))
  | .list label (x :: items) => x.command?.map fun c => (label, c, items)
  | _ => none

/-- The top-level form that an S-expression stands for: a command, or else an example. -/
def elaborateTopLevel (x : SExpr L) : Option TopLevel :=
  match x.asCommand? with
  | some (label, c, items) =>
    (elaborateCommand place c items).map fun statement => ⟨place label, statement⟩
  | none => (elaborate place x).map fun e => ⟨e.loc, .expr e⟩

/-- The forms of a program. -/
def elaborateProgram : List (SExpr L) → Option (List TopLevel)
  | [] => some []
  | x :: xs => (elaborateTopLevel place x).bind fun t => (elaborateProgram xs).map (t :: ·)

end

/-! ## Labels -/

section Labels

variable {g : L → M} {place : L → Location} {place' : M → Location} {f : Location → Location}

@[simp] theorem SExpr.head?_map (x : SExpr L) : (x.map g).head? = x.head? := by
  cases x <;> rfl

@[simp] theorem SExpr.command?_map (x : SExpr L) : (x.map g).command? = x.command? := by
  cases x <;> rfl

theorem formNode_map (k : Form) (es : List Expr) :
    formNode k (es.map (relocateExpr f)) = (formNode k es).map (Node.relocate f) := by
  have hargs : ∀ (n : Nat) (es : List Expr), Arguments.ofList n (es.map (relocateExpr f)) =
      (Arguments.ofList n es).map (Arguments.relocate f) := by
    intro n
    induction n with
    | zero =>
        intro es
        cases es with
        | nil => rw [List.map_nil, Arguments.ofList, Option.map_some, Arguments.relocate]
        | cons e es => rfl
    | succ n ih =>
        intro es
        cases es with
        | nil => rfl
        | cons e es =>
            rw [List.map_cons, Arguments.ofList, Arguments.ofList, ih]
            cases Arguments.ofList n es with
            | none => rfl
            | some args => simp [Arguments.relocate]
  rw [formNode, formNode, hargs]
  cases Arguments.ofList k.arity es with
  | none => rfl
  | some args => simp [Node.relocate]

theorem lambdaNode_map (bs : List Binder) (body : Expr) :
    lambdaNode (bs.map (Binder.relocate f)) (relocateExpr f body) =
      (lambdaNode bs body).map (Node.relocate f) := by
  cases bs <;> simp [lambdaNode, Node.relocate]

theorem quantifiedNode_map (q : Quantifier) (bs : List TypedBinder) (body : Expr) :
    quantifiedNode q (bs.map (TypedBinder.relocate f)) (relocateExpr f body) =
      (quantifiedNode q bs body).map (Node.relocate f) := by
  cases bs <;> simp [quantifiedNode, Node.relocate, relocateTypedBinders_eq_map]

theorem arrowNode_map (es : List Expr) :
    arrowNode (es.map (relocateExpr f)) = (arrowNode es).map (Node.relocate f) := by
  match es with
  | [] => rfl
  | [_] => rfl
  | e :: e' :: es => simp [arrowNode, Node.relocate, relocateExprs_eq_map]

theorem appNode_map (head : Expr) (args : List Expr) :
    appNode (relocateExpr f head) (args.map (relocateExpr f)) =
      (appNode head args).map (Node.relocate f) := by
  cases args <;> simp [appNode, Node.relocate, relocateExprs_eq_map]

theorem elaborateName_map (h : ∀ label, f (place label) = place' (g label)) (x : SExpr L) :
    elaborateName place' (x.map g) = (elaborateName place x).map (relocateName f) := by
  cases x with
  | word label name =>
      rw [SExpr.map, elaborateName, elaborateName]
      by_cases hfree : Grammar.isFreeName name = true
      · rw [if_pos hfree, if_pos hfree, Option.map_some, relocateName, h]
      · rw [if_neg hfree, if_neg hfree, Option.map_none]
  | quoted label name => rfl
  | numeral label run => rfl
  | list label items => rfl

theorem elaborateNames_map (h : ∀ label, f (place label) = place' (g label)) (xs : List (SExpr L)) :
    elaborateNames place' (SExpr.mapAll g xs) =
      (elaborateNames place xs).map (List.map (Binder.relocate f)) := by
  induction xs with
  | nil => rfl
  | cons x xs ih =>
      rw [SExpr.mapAll, elaborateNames, elaborateNames, ih, elaborateName_map h]
      cases elaborateName place x with
      | none => rfl
      | some name => cases elaborateNames place xs <;> rfl

theorem elaborateBinders_map (h : ∀ label, f (place label) = place' (g label)) (x : SExpr L) :
    elaborateBinders place' (x.map g) =
      (elaborateBinders place x).map (List.map (Binder.relocate f)) := by
  cases x with
  | word label name => rfl
  | quoted label name => rfl
  | numeral label run => rfl
  | list label items => exact elaborateNames_map h items

mutual

/-- Elaboration does not look at labels. -/
theorem elaborate_map (h : ∀ label, f (place label) = place' (g label)) (x : SExpr L) :
    elaborate place' (x.map g) = (elaborate place x).map (relocateExpr f) := by
  cases x with
  | word label name =>
      rw [SExpr.map, elaborate, elaborate, elaborateWord]
      cases constantTable.lookup name with
      | some c => simp [relocateExpr, Node.relocate, h]
      | none =>
          by_cases hfree : Grammar.isFreeName name = true
          · simp [hfree, relocateExpr, Node.relocate, h]
          · simp [hfree]
  | quoted label name => simp [SExpr.map, elaborate, relocateExpr, Node.relocate, h]
  | numeral label run =>
      rw [SExpr.map, elaborate, elaborate]
      cases readNumeral run with
      | ok value => simp [relocateExpr, Node.relocate, h]
      | error tooLong => rfl
  | list label items =>
      rw [SExpr.map, elaborate, elaborate, elaborateList_map h items]
      cases elaborateList place items with
      | none => rfl
      | some node => simp [relocateExpr, h]

theorem elaborateList_map (h : ∀ label, f (place label) = place' (g label)) (xs : List (SExpr L)) :
    elaborateList place' (SExpr.mapAll g xs) =
      (elaborateList place xs).map (Node.relocate f) := by
  match xs with
  | [] => rfl
  | x :: items =>
      rw [SExpr.mapAll, elaborateList.eq_def, elaborateList.eq_def]
      simp only [SExpr.head?_map]
      have hall := elaborateAll_map h items
      cases x.head? with
      | none =>
          simp only [hall, elaborate_map h x]
          cases elaborate place x with
          | none => rfl
          | some e =>
              cases elaborateAll place items with
              | none => rfl
              | some es => exact appNode_map e es
      | some head =>
          cases head with
          | form k =>
              simp only [hall]
              cases elaborateAll place items with
              | none => rfl
              | some es => exact formNode_map k es
          | arrow =>
              simp only [hall]
              cases elaborateAll place items with
              | none => rfl
              | some es => exact arrowNode_map es
          | lambda =>
              match items with
              | [] => rfl
              | [_] => rfl
              | _ :: _ :: _ :: _ => rfl
              | [names, body] =>
                  simp only [SExpr.mapAll, elaborateBinders_map h names, elaborate_map h body]
                  cases elaborateBinders place names with
                  | none => rfl
                  | some bs =>
                      cases elaborate place body with
                      | none => rfl
                      | some e => exact lambdaNode_map bs e
          | quantifier q =>
              match items with
              | [] => rfl
              | [_] => rfl
              | _ :: _ :: _ :: _ => rfl
              | [pairs, body] =>
                  simp only [SExpr.mapAll, elaborateTypedBinders_map h pairs, elaborate_map h body]
                  cases elaborateTypedBinders place pairs with
                  | none => rfl
                  | some bs =>
                      cases elaborate place body with
                      | none => rfl
                      | some e => exact quantifiedNode_map q bs e

theorem elaborateAll_map (h : ∀ label, f (place label) = place' (g label)) (xs : List (SExpr L)) :
    elaborateAll place' (SExpr.mapAll g xs) =
      (elaborateAll place xs).map (List.map (relocateExpr f)) := by
  match xs with
  | [] => rfl
  | x :: xs =>
      rw [SExpr.mapAll, elaborateAll, elaborateAll, elaborate_map h x, elaborateAll_map h xs]
      cases elaborate place x with
      | none => rfl
      | some e => cases elaborateAll place xs <;> rfl

theorem elaborateTypedBinders_map (h : ∀ label, f (place label) = place' (g label)) (x : SExpr L) :
    elaborateTypedBinders place' (x.map g) =
      (elaborateTypedBinders place x).map (List.map (TypedBinder.relocate f)) := by
  match x with
  | .word label name => rfl
  | .quoted label name => rfl
  | .numeral label run => rfl
  | .list label pairs => exact elaboratePairs_map h pairs

theorem elaboratePairs_map (h : ∀ label, f (place label) = place' (g label)) (xs : List (SExpr L)) :
    elaboratePairs place' (SExpr.mapAll g xs) =
      (elaboratePairs place xs).map (List.map (TypedBinder.relocate f)) := by
  match xs with
  | [] => rfl
  | x :: xs =>
      rw [SExpr.mapAll, elaboratePairs, elaboratePairs, elaboratePair_map h x,
        elaboratePairs_map h xs]
      cases elaboratePair place x with
      | none => rfl
      | some b => cases elaboratePairs place xs <;> rfl

theorem elaboratePair_map (h : ∀ label, f (place label) = place' (g label)) (x : SExpr L) :
    elaboratePair place' (x.map g) =
      (elaboratePair place x).map (TypedBinder.relocate f) := by
  match x with
  | .word _ _ => rfl
  | .quoted _ _ => rfl
  | .numeral _ _ => rfl
  | .list _ [] => rfl
  | .list _ [_] => rfl
  | .list _ (_ :: _ :: _ :: _) => rfl
  | .list _ [name, type] =>
      simp only [SExpr.map, SExpr.mapAll, elaboratePair, elaborateName_map h, elaborate_map h type]
      cases elaborateName place name with
      | none => rfl
      | some x =>
          cases elaborate place type with
          | none => rfl
          | some e => simp [TypedBinder.relocate, relocateName]

end

theorem elaborateCommand_map (h : ∀ label, f (place label) = place' (g label)) (c : Command)
    (items : List (SExpr L)) :
    elaborateCommand place' c (SExpr.mapAll g items) =
      (elaborateCommand place c items).map (Statement.relocate f) := by
  cases c with
  | claim =>
      match items with
      | [] => rfl
      | [_] => rfl
      | _ :: _ :: _ :: _ => rfl
      | [x, y] =>
          simp only [SExpr.mapAll, elaborateCommand, elaborateName_map h, elaborate_map h]
          cases elaborateName place x with
          | none => rfl
          | some name => cases elaborate place y <;> rfl
  | define =>
      match items with
      | [] => rfl
      | [_] => rfl
      | _ :: _ :: _ :: _ => rfl
      | [x, y] =>
          simp only [SExpr.mapAll, elaborateCommand, elaborateName_map h, elaborate_map h]
          cases elaborateName place x with
          | none => rfl
          | some name => cases elaborate place y <;> rfl
  | checkSame =>
      match items with
      | [] => rfl
      | [_] => rfl
      | [_, _] => rfl
      | _ :: _ :: _ :: _ :: _ => rfl
      | [x, y, z] =>
          simp only [SExpr.mapAll, elaborateCommand, elaborate_map h]
          cases elaborate place x with
          | none => rfl
          | some type =>
              cases elaborate place y with
              | none => rfl
              | some left => cases elaborate place z <;> rfl

theorem elaborateTopLevel_map (h : ∀ label, f (place label) = place' (g label)) (x : SExpr L) :
    elaborateTopLevel place' (x.map g) =
      (elaborateTopLevel place x).map (relocateTopLevel f) := by
  have hcommand : (x.map g).asCommand? =
      x.asCommand?.map fun (label, c, items) => (g label, c, SExpr.mapAll g items) := by
    match x with
    | .word _ _ => rfl
    | .quoted _ _ => rfl
    | .numeral _ _ => rfl
    | .list _ [] => rfl
    | .list label (x :: items) =>
        simp only [SExpr.map, SExpr.mapAll, SExpr.asCommand?, SExpr.command?_map]
        cases x.command? <;> rfl
  rw [elaborateTopLevel, elaborateTopLevel, hcommand]
  cases x.asCommand? with
  | none =>
      simp only [Option.map_none, elaborate_map h]
      cases elaborate place x with
      | none => rfl
      | some e => simp [relocateTopLevel, Statement.relocate]
  | some command =>
      obtain ⟨label, c, items⟩ := command
      simp only [Option.map_some, elaborateCommand_map h]
      cases elaborateCommand place c items with
      | none => rfl
      | some statement => simp [relocateTopLevel, h]

/-- The forms of a program do not depend on labels, up to their locations. -/
theorem elaborateProgram_map (h : ∀ label, f (place label) = place' (g label))
    (xs : List (SExpr L)) :
    elaborateProgram place' (SExpr.mapAll g xs) =
      (elaborateProgram place xs).map (List.map (relocateTopLevel f)) := by
  induction xs with
  | nil => rfl
  | cons x xs ih =>
      rw [SExpr.mapAll, elaborateProgram, elaborateProgram, ih, elaborateTopLevel_map h]
      cases elaborateTopLevel place x with
      | none => rfl
      | some t => cases elaborateProgram place xs <;> rfl

end Labels

end PieSyntax
