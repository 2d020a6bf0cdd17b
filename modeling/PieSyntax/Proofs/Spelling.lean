import Mathlib.Data.List.Forall2
import PieSyntax.Proofs.WellFormed

/-!
# Spelling trees

How a tree may be written down: a name as itself, a keyword in any of its spellings, a numeral with
any number of leading zeros.  `SpelledBy` relates a tree to the S-expressions that it may be written
as.

## Main results

* `elaborate_of_spelledBy`, `elaborateProgram_of_spelledBy` — a spelling of a well-formed tree
  elaborates to that tree.
-/

namespace PieSyntax

/-! ## Keywords and numerals -/

/-- The word is a spelling of the keyword. -/
def Head.SpelledBy (h : Head) (x : SExpr Unit) : Prop := ∃ k ∈ h.keywords, x = .word () k.toList

/-- The numeral has the value, after any number of zeros. -/
def NumeralSpelledBy (value : Nat) (x : SExpr Unit) : Prop :=
  ∃ zeros, x = .numeral () (List.replicate zeros '0' ++ Nat.toDigits 10 value) ∧
    (List.replicate zeros '0' ++ Nat.toDigits 10 value).length ≤ maxDigits

theorem Head.SpelledBy.head? {h : Head} {x : SExpr Unit} (hx : h.SpelledBy x) :
    x.head? = some h := by
  have hall : ∀ h ∈ Head.all, ∀ k ∈ h.keywords, headTable.lookup k.toList = some h := by decide
  obtain ⟨k, hk, rfl⟩ := hx
  exact hall h (Head.all_complete h) k hk

theorem isWord_of_reserved {name : Text} (h : name ∈ reserved) : IsWord name := by
  have hall : ∀ name ∈ reserved, IsWord name := by decide +kernel
  exact hall name h

theorem Head.SpelledBy.lexical {h : Head} {x : SExpr Unit} (hx : h.SpelledBy x) : x.Lexical := by
  obtain ⟨k, hk, rfl⟩ := hx
  intro y hy
  obtain rfl := List.mem_singleton.mp hy
  refine isWord_of_reserved (List.mem_append_left _ (List.mem_append_right _ ?_))
  refine List.mem_map.mpr ⟨(k.toList, h), List.mem_flatMap.mpr ⟨h, Head.all_complete h, ?_⟩, rfl⟩
  exact List.mem_map_of_mem hk

theorem lookup_constant (c : Constant) : constantTable.lookup c.keyword.toList = some c := by
  cases c <;> decide

theorem isWord_constant (c : Constant) : IsWord c.keyword.toList := by
  refine isWord_of_reserved (List.mem_append_left _ (List.mem_append_left _ ?_))
  exact List.mem_map.mpr ⟨_, List.mem_map_of_mem (Constant.all_complete c), rfl⟩

theorem lookup_command (c : Command) : commandTable.lookup c.keyword.toList = some c := by
  cases c <;> decide

theorem isWord_command (c : Command) : IsWord c.keyword.toList := by
  refine isWord_of_reserved (List.mem_append_right _ ?_)
  exact List.mem_map.mpr ⟨_, List.mem_map_of_mem (Command.all_complete c), rfl⟩

theorem numeralValue_zeros (zeros : Nat) (run : Text) :
    numeralValue (List.replicate zeros '0' ++ run) = numeralValue run := by
  induction zeros with
  | zero => rfl
  | succ zeros ih =>
      rw [← ih]
      rfl

theorem numeralValue_toDigits (value : Nat) : numeralValue (Nat.toDigits 10 value) = value := by
  have h := Nat.ofDigitChars_ten_toDigits (n := value)
  rw [Nat.ofDigitChars_eq_foldl] at h
  exact h

theorem NumeralSpelledBy.elaborate {value : Nat} {x : SExpr Unit} (h : NumeralSpelledBy value x) :
    elaborate (fun _ => .nowhere) x = some ⟨.nowhere, .natLit value⟩ := by
  obtain ⟨zeros, rfl, hlen⟩ := h
  rw [PieSyntax.elaborate, readNumeral_of_length_le hlen, numeralValue_zeros, numeralValue_toDigits]

theorem NumeralSpelledBy.lexical {value : Nat} {x : SExpr Unit} (h : NumeralSpelledBy value x) :
    x.Lexical := by
  obtain ⟨zeros, rfl, -⟩ := h
  intro y hy
  obtain rfl := List.mem_singleton.mp hy
  refine ⟨fun hnil => Nat.toDigits_ne_nil (List.append_eq_nil_iff.mp hnil).2, fun ch hch => ?_⟩
  rcases List.mem_append.mp hch with hch | hch
  · rw [List.eq_of_mem_replicate hch]
    decide
  · exact Nat.isDigit_of_mem_toDigits (by omega) (by omega) hch

/-! ## Trees -/

mutual

/-- The S-expression is a spelling of the node. -/
def Node.SpelledBy : Node → SExpr Unit → Prop
  | .var name, x => x = .word () name
  | .tick name, x => x = .quoted () name
  | .natLit value, x => NumeralSpelledBy value x
  | .constant c, x => x = .word () c.keyword.toList
  | .form f args, x =>
      ∃ head items, x = .list () (head :: items) ∧ (Head.form f).SpelledBy head ∧
        args.SpelledBy items
  | .lambda bs body, x =>
      ∃ head y, x = .list () [head, .list () (bs.map fun b => .word () b.name), y] ∧
        Head.lambda.SpelledBy head ∧ ExprSpelledBy body y
  | .quantified q bs body, x =>
      ∃ head pairs y, x = .list () [head, .list () pairs, y] ∧
        (Head.quantifier q).SpelledBy head ∧ TypedBindersSpelledBy bs pairs ∧ ExprSpelledBy body y
  | .arrow arg rest, x =>
      ∃ head y ys, x = .list () (head :: y :: ys) ∧ Head.arrow.SpelledBy head ∧
        ExprSpelledBy arg y ∧ ExprsSpelledBy rest ys
  | .app head args, x =>
      ∃ y ys, x = .list () (y :: ys) ∧ ExprSpelledBy head y ∧ ExprsSpelledBy args ys

/-- The S-expression is a spelling of the expression. -/
def ExprSpelledBy : Located Node → SExpr Unit → Prop
  | ⟨_, node⟩, x => node.SpelledBy x

/-- The S-expressions are spellings of the expressions. -/
def ExprsSpelledBy : List (Located Node) → List (SExpr Unit) → Prop
  | [], xs => xs = []
  | e :: es, xs => ∃ y ys, xs = y :: ys ∧ ExprSpelledBy e y ∧ ExprsSpelledBy es ys

/-- The S-expressions are spellings of the arguments. -/
def Arguments.SpelledBy {n : Nat} : Arguments n → List (SExpr Unit) → Prop
  | .nil, xs => xs = []
  | .cons first rest, xs => ∃ y ys, xs = y :: ys ∧ ExprSpelledBy first y ∧ rest.SpelledBy ys

/-- The S-expression is a spelling of the name and its type. -/
def TypedBinder.SpelledBy : TypedBinder → SExpr Unit → Prop
  | .mk _ name type, x => ∃ y, x = .list () [.word () name, y] ∧ ExprSpelledBy type y

/-- The S-expressions are spellings of the names and their types. -/
def TypedBindersSpelledBy : List TypedBinder → List (SExpr Unit) → Prop
  | [], xs => xs = []
  | b :: bs, xs => ∃ y ys, xs = y :: ys ∧ b.SpelledBy y ∧ TypedBindersSpelledBy bs ys

end

/-- The S-expression is a spelling of the statement. -/
def Statement.SpelledBy : Statement → SExpr Unit → Prop
  | .claim name type, x =>
      ∃ y, x = .list () [.word () Command.claim.keyword.toList, .word () name.value, y] ∧
        ExprSpelledBy type y
  | .define name value, x =>
      ∃ y, x = .list () [.word () Command.define.keyword.toList, .word () name.value, y] ∧
        ExprSpelledBy value y
  | .checkSame type left right, x =>
      ∃ y z w, x = .list () [.word () Command.checkSame.keyword.toList, y, z, w] ∧
        ExprSpelledBy type y ∧ ExprSpelledBy left z ∧ ExprSpelledBy right w
  | .expr e, x => ExprSpelledBy e x

/-- The S-expression is a spelling of the top-level form. -/
def TopLevel.SpelledBy (t : TopLevel) (x : SExpr Unit) : Prop := t.value.SpelledBy x

/-! ## What spellings elaborate to -/

theorem lexical_word {name : Text} (h : IsWord name) : (SExpr.word () name).Lexical := by
  intro y hy
  obtain rfl := List.mem_singleton.mp hy
  exact h

theorem elaborateName_of_isName {name : Text} (h : IsName name) :
    elaborateName (fun _ => .nowhere) (SExpr.word () name) = some ⟨.nowhere, name⟩ := by
  rw [elaborateName, if_pos h.2]

theorem elaborateNames_of_isName {bs : List Binder} (h : ∀ b ∈ bs, IsName b.name) :
    elaborateNames (fun _ => .nowhere) (bs.map fun b => SExpr.word () b.name) =
      some (bs.map (Binder.relocate fun _ => .nowhere)) := by
  induction bs with
  | nil => rfl
  | cons b bs ih =>
      rw [List.map_cons, elaborateNames, elaborateName_of_isName (h b (by simp)),
        ih fun b' hb' => h b' (by simp [hb'])]
      rfl

theorem lexical_names {bs : List Binder} (h : ∀ b ∈ bs, IsName b.name) :
    (SExpr.list () (bs.map fun b => SExpr.word () b.name)).Lexical := by
  refine SExpr.lexical_list fun x hx => ?_
  obtain ⟨b, hb, rfl⟩ := List.mem_map.mp hx
  exact lexical_word (h b hb).1

/-- The tree is spelled by an S-expression of words and numerals, which elaborates to it. -/
def ElaboratesTo (x : SExpr Unit) (e : Expr) : Prop :=
  elaborate (fun _ => .nowhere) x = some (relocateExpr (fun _ => .nowhere) e) ∧ x.Lexical

/-- The same for several. -/
def AllElaborateTo (xs : List (SExpr Unit)) (es : List Expr) : Prop :=
  elaborateAll (fun _ => .nowhere) xs = some (relocateExprs (fun _ => .nowhere) es) ∧
    ∀ x ∈ xs, x.Lexical

theorem lexical_cons {x : SExpr Unit} {xs : List (SExpr Unit)} (hx : x.Lexical)
    (hxs : ∀ y ∈ xs, y.Lexical) : ∀ y ∈ x :: xs, y.Lexical :=
  List.forall_mem_cons.mpr ⟨hx, hxs⟩

theorem AllElaborateTo.cons {x : SExpr Unit} {xs : List (SExpr Unit)} {e : Expr} {es : List Expr}
    (h : ElaboratesTo x e) (hall : AllElaborateTo xs es) : AllElaborateTo (x :: xs) (e :: es) := by
  refine ⟨?_, lexical_cons h.2 hall.2⟩
  rw [elaborateAll, h.1, hall.1]
  rfl

/-- A list whose node is known. -/
theorem ElaboratesTo.list {xs : List (SExpr Unit)} {loc : Location} {node : Node}
    (h : elaborateList (fun _ => .nowhere) xs = some (node.relocate fun _ => .nowhere))
    (hxs : ∀ x ∈ xs, x.Lexical) : ElaboratesTo (.list () xs) ⟨loc, node⟩ := by
  refine ⟨?_, SExpr.lexical_list hxs⟩
  rw [elaborate, h, relocateExpr]
  rfl

/-- All expressions of the list are proper. -/
def AllProper (es : List Expr) : Prop := ∀ e ∈ es, e.value.Proper

theorem AllProper.left {es es' : List Expr} (h : AllProper (es ++ es')) : AllProper es :=
  fun e he => h e (List.mem_append_left _ he)

theorem AllProper.right {es es' : List Expr} (h : AllProper (es ++ es')) : AllProper es' :=
  fun e he => h e (List.mem_append_right _ he)

/-! ### One kind of node after the other -/

section

variable {loc : Location} {head x : SExpr Unit} {xs : List (SExpr Unit)}
variable {e : Expr} {es : List Expr}

theorem ElaboratesTo.var {name : Text} (h : IsName name) :
    ElaboratesTo (.word () name) ⟨loc, .var name⟩ := by
  refine ⟨?_, lexical_word h.1⟩
  rw [elaborate, elaborateWord, (lookup_eq_none_of_isFreeName h.2).1]
  simp only [h.2, if_true, Option.map_some, relocateExpr, Node.relocate]

theorem ElaboratesTo.tick {name : Text} (h : IsWord name) :
    ElaboratesTo (.quoted () name) ⟨loc, .tick name⟩ := by
  refine ⟨rfl, fun y hy => ?_⟩
  obtain rfl := List.mem_singleton.mp hy
  exact h

theorem ElaboratesTo.constant (c : Constant) :
    ElaboratesTo (.word () c.keyword.toList) ⟨loc, .constant c⟩ := by
  refine ⟨?_, lexical_word (isWord_constant c)⟩
  rw [elaborate, elaborateWord, lookup_constant]
  rfl

theorem ElaboratesTo.form {f : Form} {args : Arguments f.arity} (hhead : (Head.form f).SpelledBy head)
    (hargs : elaborateAll (fun _ => .nowhere) xs =
      some (args.relocate fun _ => .nowhere).toList) (hxs : ∀ y ∈ xs, y.Lexical) :
    ElaboratesTo (.list () (head :: xs)) ⟨loc, .form f args⟩ := by
  refine ElaboratesTo.list ?_ (lexical_cons hhead.lexical hxs)
  rw [elaborateList_form _ hhead.head?, hargs, Option.bind_some, formNode,
    Arguments.ofList_toList, Option.map_some, Node.relocate]

theorem ElaboratesTo.lambda {bs : List Binder} (hhead : Head.lambda.SpelledBy head) (hne : bs ≠ [])
    (hnames : ∀ b ∈ bs, IsName b.name) (hbody : ElaboratesTo x e) :
    ElaboratesTo (.list () [head, .list () (bs.map fun b => .word () b.name), x])
      ⟨loc, .lambda bs e⟩ := by
  refine ElaboratesTo.list ?_ (lexical_cons hhead.lexical (lexical_cons (lexical_names hnames)
    (List.forall_mem_singleton.mpr hbody.2)))
  rw [elaborateList_lambda _ hhead.head?, elaborateBinders, elaborateNames_of_isName hnames,
    hbody.1, Option.bind_some, Option.bind_some, lambdaNode, if_neg (by simpa using hne),
    Node.relocate]

theorem ElaboratesTo.quantified {q : Quantifier} {bs : List TypedBinder}
    (hhead : (Head.quantifier q).SpelledBy head) (hne : bs ≠ [])
    (hbs : elaboratePairs (fun _ => .nowhere) xs =
      some (relocateTypedBinders (fun _ => .nowhere) bs)) (hxs : ∀ y ∈ xs, y.Lexical)
    (hbody : ElaboratesTo x e) :
    ElaboratesTo (.list () [head, .list () xs, x]) ⟨loc, .quantified q bs e⟩ := by
  refine ElaboratesTo.list ?_ (lexical_cons hhead.lexical (lexical_cons (SExpr.lexical_list hxs)
    (List.forall_mem_singleton.mpr hbody.2)))
  rw [elaborateList_quantifier _ hhead.head?, elaborateTypedBinders, hbs, hbody.1,
    Option.bind_some, Option.bind_some, quantifiedNode, relocateTypedBinders_eq_map,
    if_neg (by simpa using hne), Node.relocate, relocateTypedBinders_eq_map]

theorem ElaboratesTo.arrow (hhead : Head.arrow.SpelledBy head) (harg : ElaboratesTo x e)
    (hne : es ≠ []) (hrest : AllElaborateTo xs es) :
    ElaboratesTo (.list () (head :: x :: xs)) ⟨loc, .arrow e es⟩ := by
  have hall := AllElaborateTo.cons harg hrest
  refine ElaboratesTo.list ?_ (lexical_cons hhead.lexical hall.2)
  rw [elaborateList_arrow _ hhead.head?, hall.1, Option.bind_some]
  cases es with
  | nil => exact absurd rfl hne
  | cons e es => simp only [relocateExprs, arrowNode, Node.relocate]

theorem ElaboratesTo.app (hhead : ElaboratesTo x e) (hne : es ≠ [])
    (hargs : AllElaborateTo xs es) : ElaboratesTo (.list () (x :: xs)) ⟨loc, .app e es⟩ := by
  refine ElaboratesTo.list ?_ (lexical_cons hhead.2 hargs.2)
  rw [elaborateList_application _ (head?_eq_none_of_elaborate hhead.1).1, hhead.1, hargs.1,
    Option.bind_some, Option.bind_some]
  cases es with
  | nil => exact absurd rfl hne
  | cons e es =>
      simp only [relocateExprs, appNode, Node.relocate]
      rfl

end

/-! ### Trees -/

mutual

theorem elaborate_of_spelledBy (e : Located Node) {x : SExpr Unit} (h : ExprSpelledBy e x)
    (hproper : AllProper (subexpressions e)) : ElaboratesTo x e := by
  match e with
  | ⟨loc, node⟩ =>
      rw [subexpressions] at hproper
      have hself : node.Proper := hproper ⟨loc, node⟩ (by simp)
      have hparts : AllProper node.subexpressions :=
        fun e he => hproper e (List.mem_cons_of_mem _ he)
      rw [ExprSpelledBy] at h
      exact elaborate_of_node_spelledBy node loc h hself hparts

theorem elaborate_of_node_spelledBy (node : Node) (loc : Location) {x : SExpr Unit}
    (h : node.SpelledBy x) (hself : node.Proper) (hparts : AllProper node.subexpressions) :
    ElaboratesTo x ⟨loc, node⟩ := by
  match node with
  | .var name =>
      obtain rfl := h
      exact .var hself
  | .tick name =>
      obtain rfl := h
      exact .tick hself
  | .natLit value =>
      have hnumeral : NumeralSpelledBy value x := h
      exact ⟨hnumeral.elaborate, hnumeral.lexical⟩
  | .constant c =>
      obtain rfl := h
      exact .constant c
  | .form f args =>
      obtain ⟨head, items, rfl, hhead, hargs⟩ := h
      obtain ⟨hitems, hlexical⟩ := elaborate_of_arguments_spelledBy args hargs hparts
      exact .form hhead hitems hlexical
  | .lambda bs body =>
      obtain ⟨head, y, rfl, hhead, hbody⟩ := h
      exact .lambda hhead hself.1 hself.2 (elaborate_of_spelledBy body hbody hparts)
  | .quantified q bs body =>
      obtain ⟨head, pairs, y, rfl, hhead, hpairs, hbody⟩ := h
      obtain ⟨hne, hnames⟩ := hself
      rw [Node.subexpressions] at hparts
      obtain ⟨hbs, hlexical⟩ := elaborate_of_typedBinders_spelledBy bs hpairs hnames hparts.left
      exact .quantified hhead hne hbs hlexical (elaborate_of_spelledBy body hbody hparts.right)
  | .arrow arg rest =>
      obtain ⟨head, y, ys, rfl, hhead, harg, hrest⟩ := h
      rw [Node.subexpressions] at hparts
      exact .arrow hhead (elaborate_of_spelledBy arg harg hparts.left) hself
        (elaborate_of_all_spelledBy rest hrest hparts.right)
  | .app head args =>
      obtain ⟨y, ys, rfl, hhead, hargs⟩ := h
      rw [Node.subexpressions] at hparts
      exact .app (elaborate_of_spelledBy head hhead hparts.left) hself
        (elaborate_of_all_spelledBy args hargs hparts.right)

theorem elaborate_of_all_spelledBy (es : List (Located Node)) {xs : List (SExpr Unit)}
    (h : ExprsSpelledBy es xs) (hproper : AllProper (allSubexpressions es)) :
    AllElaborateTo xs es := by
  match es with
  | [] =>
      obtain rfl := h
      exact ⟨rfl, fun x hx => by cases hx⟩
  | e :: es =>
      obtain ⟨y, ys, rfl, he, hes⟩ := h
      rw [allSubexpressions] at hproper
      exact .cons (elaborate_of_spelledBy e he hproper.left)
        (elaborate_of_all_spelledBy es hes hproper.right)

theorem elaborate_of_arguments_spelledBy {n : Nat} (args : Arguments n) {xs : List (SExpr Unit)}
    (h : args.SpelledBy xs) (hproper : AllProper args.subexpressions) :
    elaborateAll (fun _ => .nowhere) xs = some (args.relocate fun _ => .nowhere).toList ∧
      ∀ x ∈ xs, x.Lexical := by
  match args with
  | .nil =>
      obtain rfl := h
      exact ⟨rfl, fun x hx => by cases hx⟩
  | .cons first rest =>
      obtain ⟨y, ys, rfl, hfirst, hrest⟩ := h
      rw [Arguments.subexpressions] at hproper
      obtain ⟨hy, hlexical⟩ := elaborate_of_spelledBy first hfirst hproper.left
      obtain ⟨hys, hlexical'⟩ := elaborate_of_arguments_spelledBy rest hrest hproper.right
      refine ⟨?_, lexical_cons hlexical hlexical'⟩
      rw [elaborateAll, hy, hys, Option.bind_some, Option.map_some, Arguments.relocate,
        Arguments.toList]

theorem elaborate_of_typedBinder_spelledBy (b : TypedBinder) {x : SExpr Unit}
    (h : b.SpelledBy x) (hname : IsName b.name) (hproper : AllProper b.subexpressions) :
    elaboratePair (fun _ => .nowhere) x = some (b.relocate fun _ => .nowhere) ∧ x.Lexical := by
  match b with
  | .mk loc name type =>
      obtain ⟨y, rfl, htype⟩ := h
      have hname : IsName name := hname
      obtain ⟨hy, hlexical⟩ := elaborate_of_spelledBy type htype hproper
      refine ⟨?_, SExpr.lexical_list (lexical_cons (lexical_word hname.1)
        (List.forall_mem_singleton.mpr hlexical))⟩
      rw [elaboratePair, elaborateName_of_isName hname, hy, Option.bind_some, Option.map_some,
        TypedBinder.relocate]

theorem elaborate_of_typedBinders_spelledBy (bs : List TypedBinder) {xs : List (SExpr Unit)}
    (h : TypedBindersSpelledBy bs xs) (hnames : ∀ b ∈ bs, IsName b.name)
    (hproper : AllProper (typedBindersSubexpressions bs)) :
    elaboratePairs (fun _ => .nowhere) xs = some (relocateTypedBinders (fun _ => .nowhere) bs) ∧
      ∀ x ∈ xs, x.Lexical := by
  match bs with
  | [] =>
      obtain rfl := h
      exact ⟨rfl, fun x hx => by cases hx⟩
  | b :: bs =>
      obtain ⟨y, ys, rfl, hb, hbs⟩ := h
      rw [typedBindersSubexpressions] at hproper
      obtain ⟨hy, hlexical⟩ :=
        elaborate_of_typedBinder_spelledBy b hb (hnames b (by simp)) hproper.left
      obtain ⟨hys, hlexical'⟩ := elaborate_of_typedBinders_spelledBy bs hbs
        (fun b' hb' => hnames b' (by simp [hb'])) hproper.right
      refine ⟨?_, lexical_cons hlexical hlexical'⟩
      rw [elaboratePairs, hy, hys, Option.bind_some, Option.map_some, relocateTypedBinders]

end

/-- A list that is headed by the keyword of a command elaborates as that command does. -/
theorem elaborateTopLevel_command {c : Command} {items : List (SExpr Unit)} {statement : Statement}
    (h : elaborateCommand (fun _ => .nowhere) c items = some statement)
    (hitems : ∀ x ∈ items, x.Lexical) :
    elaborateTopLevel (fun _ => .nowhere) (.list () (.word () c.keyword.toList :: items)) =
      some ⟨.nowhere, statement⟩ ∧
        (SExpr.list () (.word () c.keyword.toList :: items)).Lexical := by
  refine ⟨?_, SExpr.lexical_list (lexical_cons (lexical_word (isWord_command c)) hitems)⟩
  rw [elaborateTopLevel]
  simp only [SExpr.asCommand?, SExpr.command?, lookup_command, Option.map_some, h]

/-- A spelling of a well-formed top-level form elaborates to that form. -/
theorem elaborateTopLevel_of_spelledBy {t : TopLevel} {x : SExpr Unit} (h : t.SpelledBy x)
    (hwf : t.WellFormed) :
    elaborateTopLevel (fun _ => .nowhere) x = some t.bare ∧ x.Lexical := by
  obtain ⟨loc, statement⟩ := t
  obtain ⟨hself, hparts⟩ := hwf
  cases statement with
  | claim name type =>
      obtain ⟨y, rfl, htype⟩ := h
      have hname : IsName name.value := hself
      have hy := elaborate_of_spelledBy type htype hparts
      refine elaborateTopLevel_command ?_ (lexical_cons (lexical_word hname.1)
        (List.forall_mem_singleton.mpr hy.2))
      rw [elaborateCommand, elaborateName_of_isName hname, hy.1]
      rfl
  | define name value =>
      obtain ⟨y, rfl, hvalue⟩ := h
      have hname : IsName name.value := hself
      have hy := elaborate_of_spelledBy value hvalue hparts
      refine elaborateTopLevel_command ?_ (lexical_cons (lexical_word hname.1)
        (List.forall_mem_singleton.mpr hy.2))
      rw [elaborateCommand, elaborateName_of_isName hname, hy.1]
      rfl
  | checkSame type left right =>
      obtain ⟨y, z, w, rfl, htype, hleft, hright⟩ := h
      have hparts : AllProper (subexpressions type ++ (subexpressions left ++
        subexpressions right)) := hparts
      have hy := elaborate_of_spelledBy type htype hparts.left
      have hz := elaborate_of_spelledBy left hleft hparts.right.left
      have hw := elaborate_of_spelledBy right hright hparts.right.right
      refine elaborateTopLevel_command ?_ (lexical_cons hy.2 (lexical_cons hz.2
        (List.forall_mem_singleton.mpr hw.2)))
      rw [elaborateCommand, hy.1, hz.1, hw.1]
      rfl
  | expr e =>
      obtain ⟨hx, hlexical⟩ := elaborate_of_spelledBy e h hparts
      refine ⟨?_, hlexical⟩
      rw [elaborateTopLevel, asCommand?_eq_none_of_elaborate hx, hx]
      simp [TopLevel.bare, relocateTopLevel, Statement.relocate]

/-- A spelling of a well-formed program elaborates to that program. -/
theorem elaborateProgram_of_spelledBy {ts : List TopLevel} {xs : List (SExpr Unit)}
    (h : List.Forall₂ TopLevel.SpelledBy ts xs) (hwf : ∀ t ∈ ts, t.WellFormed) :
    elaborateProgram (fun _ => .nowhere) xs = some (ts.map TopLevel.bare) ∧
      ∀ x ∈ xs, x.Lexical := by
  induction h with
  | nil => exact ⟨rfl, fun x hx => by cases hx⟩
  | cons hspelled hall ih =>
      obtain ⟨hx, hlexical⟩ := elaborateTopLevel_of_spelledBy hspelled (hwf _ (by simp))
      obtain ⟨hxs, hlexical'⟩ := ih fun t ht => hwf t (by simp [ht])
      refine ⟨?_, lexical_cons hlexical hlexical'⟩
      rw [elaborateProgram, hx, hxs]
      rfl

end PieSyntax
