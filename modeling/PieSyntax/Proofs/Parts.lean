import PieSyntax.Proofs.Relocation
import PieSyntax.Proofs.Tracking
import PieSyntax.Syntax.Grammar

/-!
# Trees with related parts

The grammar builds a node from parts that it gets by calling the expression production.  Whatever
relation those parts are in, the nodes built by two runs are made of parts in that relation: this is
all the grammar contributes to a statement about two runs, or about one run and itself.

`Node.Matches E` lifts a relation `E` between expressions to nodes with such parts, and
`Statement.Matches E` lifts it to statements.

## Main results

* `Grammar.expr_alike`, `Grammar.topLevel_alike` — expressions and top-level forms are built alike,
  whatever the calls of the expression production have in common.
-/

namespace PieSyntax

variable (K : Tracking)

/-- The same name at related places. -/
def Binder.Matches (b b' : Binder) : Prop := K.Spans b.loc b'.loc ∧ b.name = b'.name

/-- The same name at related places, with related types. -/
def TypedBinder.Matches (E : Expr → Expr → Prop) (b b' : TypedBinder) : Prop :=
  K.Spans b.loc b'.loc ∧ b.name = b'.name ∧ E b.type b'.type

/-- Nodes of one kind whose parts are related. -/
inductive Node.Matches (E : Expr → Expr → Prop) : Node → Node → Prop where
  | var (name : Text) : Matches E (.var name) (.var name)
  | tick (name : Text) : Matches E (.tick name) (.tick name)
  | natLit (value : Nat) : Matches E (.natLit value) (.natLit value)
  | constant (c : Constant) : Matches E (.constant c) (.constant c)
  | form (f : Form) {args args' : Arguments f.arity}
    (h : List.Forall₂ E args.toList args'.toList) : Matches E (.form f args) (.form f args')
  | lambda {bs bs' : List Binder} {body body' : Expr} (hbs : List.Forall₂ (Binder.Matches K) bs bs')
    (hbody : E body body') : Matches E (.lambda bs body) (.lambda bs' body')
  | quantified (q : Quantifier) {bs bs' : List TypedBinder} {body body' : Expr}
    (hbs : List.Forall₂ (TypedBinder.Matches K E) bs bs') (hbody : E body body') :
    Matches E (.quantified q bs body) (.quantified q bs' body')
  | arrow {arg arg' : Expr} {rest rest' : List Expr} (harg : E arg arg')
    (hrest : List.Forall₂ E rest rest') : Matches E (.arrow arg rest) (.arrow arg' rest')
  | app {head head' : Expr} {args args' : List Expr} (hhead : E head head')
    (hargs : List.Forall₂ E args args') : Matches E (.app head args) (.app head' args')

/-- Statements of one kind whose parts are related. -/
inductive Statement.Matches (E : Expr → Expr → Prop) : Statement → Statement → Prop where
  | claim {name name' : Located Text} {type type' : Expr} (hname : K.Places Eq name name')
    (h : E type type') : Matches E (.claim name type) (.claim name' type')
  | define {name name' : Located Text} {value value' : Expr} (hname : K.Places Eq name name')
    (h : E value value') : Matches E (.define name value) (.define name' value')
  | checkSame {type type' left left' right right' : Expr} (htype : E type type')
    (hleft : E left left') (hright : E right right') :
    Matches E (.checkSame type left right) (.checkSame type' left' right')
  | expr {e e' : Expr} (h : E e e') : Matches E (.expr e) (.expr e')

namespace Grammar

/-- What the results of the recursive productions have in common, when expressions have `E`. -/
def Likeness (E : Expr → Expr → Prop) :
    (n : Production) → Production.Result n → Production.Result n → Prop
  | .spacing, u, u' => u = u'
  | .datum, u, u' => u = u'
  | .expr, e, e' => E e e'

variable {K} {E : Expr → Expr → Prop} {α β γ δ : Type} {T : α → β → Prop} {U : γ → δ → Prop}

/-- Two parsers of the grammar that are built alike. -/
abbrev Alike (K : Tracking) (E : Expr → Expr → Prop) {α β : Type} (T : α → β → Prop)
    (p : PieParser α) (q : PieParser β) : Prop := Parser.Related K (Likeness E) T p q

theorem skip_alike : Alike K E Eq skip skip := Parser.Related.call Production.spacing

theorem innerDatum_alike : Alike K E Eq innerDatum innerDatum :=
  Parser.Related.call Production.datum

theorem innerExpr_alike : Alike K E E innerExpr innerExpr := Parser.Related.call Production.expr

/-! ## Tokens -/

theorem ignored_alike {p : PieParser α} {q : PieParser β} (h : Alike K E T p q) :
    Alike K E Eq (ignored p) (ignored q) :=
  h.map fun _ _ _ => rfl

theorem lexeme_alike {p : PieParser α} {q : PieParser β} (h : Alike K E T p q) :
    Alike K E (K.Places T) (lexeme skip p) (lexeme skip q) :=
  h.located.followedBy skip_alike

theorem parens_alike {p : PieParser α} {q : PieParser β} (h : Alike K E T p q) :
    Alike K E T (parens skip p) (parens skip q) :=
  ((lexeme_alike (.char '(')).andThen h).followedBy (lexeme_alike (.char ')'))

theorem parensLocated_alike {p : PieParser α} {q : PieParser β} (h : Alike K E T p q) :
    Alike K E (K.Places T) (parensLocated skip p) (parensLocated skip q) := by
  refine .named _ (.bind (lexeme_alike (.char '(')) fun o o' ho => .bind h fun a b hab => ?_)
  refine .refine (lexeme_alike (.char ')')) fun x x' hx => ?_
  obtain ⟨⟨hosource, hostart, -⟩, -⟩ := ho
  obtain ⟨⟨hxsource, -, hxfinish⟩, -⟩ := hx
  unfold Location.join
  rw [← hosource, ← hxsource]
  by_cases h : o.loc.source = x.loc.source
  · simp only [if_pos h]
    exact .accept ⟨⟨rfl, hostart, hxfinish⟩, hab⟩
  · simp only [if_neg h]
    exact .interrupt _ (fun _ _ _ h => by cases h)

theorem subsequent_alike :
    Alike K E Eq (Parser.satisfy "identifier subsequent character" isSubsequent).many
      (Parser.satisfy "identifier subsequent character" isSubsequent).many := by
  have h := (Parser.Related.satisfy (K := K) (S := Likeness E)
    "identifier subsequent character" isSubsequent).many
  rwa [List.forall₂_eq_eq_eq] at h

theorem identifier_alike : Alike K E Eq identifier identifier := by
  refine .orElse (.named _ (.bind (.satisfy _ _) fun c c' hc => ?_))
    (.named _ (.bind (T := Eq) (.choice fun p hp => ?_) fun s s' hs => ?_))
  · exact subsequent_alike.map fun a b hab => by rw [hc, hab]
  · simp only [List.mem_cons, List.not_mem_nil, or_false] at hp
    rcases hp with rfl | rfl | rfl
    · exact .text _
    · exact .text _
    · exact .text _
  · exact subsequent_alike.map fun a b hab => by rw [hs, hab]

theorem digits_alike : Alike K E Eq digits digits := by
  have h := (Parser.Related.satisfy (K := K) (S := Likeness E) "digit" isDigit).many1
  rw [List.forall₂_eq_eq_eq] at h
  exact h.describe _

theorem keywordTable_alike (table : List (Text × α)) :
    Alike K E (K.Places Eq) (keywordTable skip table) (keywordTable skip table) := by
  refine .refine (lexeme_alike identifier_alike) fun x x' hx => ?_
  obtain ⟨hloc, hvalue⟩ := hx
  rw [← hvalue]
  cases table.lookup x.value with
  | some entry => exact .accept ⟨hloc, rfl⟩
  | none => exact .reject .generic

theorem natural_alike : Alike K E (K.Places Eq) (natural skip) (natural skip) := by
  refine .refine (lexeme_alike digits_alike) fun x x' hx => ?_
  obtain ⟨hloc, hvalue⟩ := hx
  rw [← hvalue]
  cases readNumeral x.value with
  | ok value => exact .accept ⟨hloc, rfl⟩
  | error e => exact .interrupt _ (fun _ _ _ h => by cases h)

/-! ## Trivia -/

theorem datum_alike : Alike K E Eq anyDatum anyDatum := by
  have hgroup := ignored_alike (parens_alike (innerDatum_alike (K := K) (E := E)).many)
  exact ignored_alike (lexeme_alike (.orElse (.orElse hgroup (ignored_alike identifier_alike))
    (ignored_alike digits_alike)))

theorem lineComment_alike : Alike K E Eq lineComment lineComment := by
  have hstart := (Parser.Related.char (K := K) (S := Likeness E) ';').andThen
    (.spanning (· ≠ '\n'))
  exact (hstart.andThen (.orElse (ignored_alike (.char '\n')) .eof)).describe _

theorem spacing_alike : Alike K E Eq trivia trivia := by
  refine ignored_alike (T := List.Forall₂ Eq) (.many (.choice fun p hp => ?_))
  rcases List.mem_append.mp hp with hp | hp
  · obtain ⟨c, -, rfl⟩ := List.mem_map.mp hp
    exact ignored_alike (.char c)
  · simp only [List.mem_cons, List.not_mem_nil, or_false] at hp
    rcases hp with rfl | rfl
    · exact lineComment_alike
    · exact ignored_alike ((lexeme_alike (.text _)).andThen datum_alike)

/-! ## Expressions -/

theorem varName_alike : Alike K E (K.Places Eq) varName varName := by
  refine ((lexeme_alike identifier_alike).guard _ fun x x' hx => ?_).describe _
  rw [hx.2]

theorem binders_alike : Alike K E (List.Forall₂ (Binder.Matches K)) binders binders :=
  parens_alike (Parser.Related.map varName_alike
    (f := fun token => (⟨token.loc, token.value⟩ : Binder))
    (g := fun token => (⟨token.loc, token.value⟩ : Binder)) fun _ _ hx => hx).many1

theorem typedBinders_alike :
    Alike K E (List.Forall₂ (TypedBinder.Matches K E)) typedBinders typedBinders := by
  refine parens_alike (parens_alike (.named _ (.bind varName_alike fun x x' hx => ?_))).many1
  exact innerExpr_alike.map fun e e' he => ⟨hx.1, hx.2, he⟩

theorem arguments_alike (n : Nat) :
    Alike K E (fun args args' : Arguments n => List.Forall₂ E args.toList args'.toList)
      (arguments n) (arguments n) := by
  induction n with
  | zero => exact .pure .nil
  | succ n ih =>
      exact .bind innerExpr_alike fun e e' he => ih.map fun args args' h => .cons he h

theorem headBody_alike (h : Head) : Alike K E (Node.Matches K E) (headBody h) (headBody h) := by
  refine .named _ ?_
  cases h with
  | form f => exact (arguments_alike f.arity).map fun args args' h => .form f h
  | lambda =>
      exact .bind binders_alike fun bs bs' hbs =>
        innerExpr_alike.map fun e e' he => .lambda hbs he
  | quantifier q =>
      exact .bind typedBinders_alike fun bs bs' hbs =>
        innerExpr_alike.map fun e e' he => .quantified q hbs he
  | arrow =>
      exact .bind innerExpr_alike fun e e' he =>
        innerExpr_alike.many1.map fun es es' hes => .arrow he hes

theorem commandBody_alike (c : Command) :
    Alike K E (Statement.Matches K E) (commandBody c) (commandBody c) := by
  refine .named _ ?_
  cases c with
  | claim =>
      exact .bind varName_alike fun x x' hx => innerExpr_alike.map fun e e' he => .claim hx he
  | define =>
      exact .bind varName_alike fun x x' hx => innerExpr_alike.map fun e e' he => .define hx he
  | checkSame =>
      exact .bind innerExpr_alike fun a a' ha => .bind innerExpr_alike fun b b' hb =>
        innerExpr_alike.map fun c c' hc => .checkSame ha hb hc

theorem dispatch_alike (table : List (Text × α)) {body : α → PieParser γ}
    {body' : α → PieParser δ} (h : ∀ a, Alike K E U (body a) (body' a)) :
    Alike K E U (dispatch table body) (dispatch table body') := by
  refine .bind (keywordTable_alike table) fun x x' hx => ?_
  rw [hx.2]
  exact h x'.value

theorem tick_alike : Alike K E (K.Places (Node.Matches K E)) tick tick := by
  refine (lexeme_alike ((Parser.Related.char '\'').andThen identifier_alike)).map fun x x' hx => ?_
  exact ⟨hx.1, by rw [Located.map_value, Located.map_value, hx.2]; exact .tick x'.value⟩

theorem variableName_alike :
    Alike K E (K.Places (Node.Matches K E)) variableName variableName := by
  refine varName_alike.map fun x x' hx => ?_
  exact ⟨hx.1, by rw [Located.map_value, Located.map_value, hx.2]; exact .var x'.value⟩

theorem constant_alike : Alike K E (K.Places (Node.Matches K E)) constant constant := by
  refine (keywordTable_alike constantTable).map fun x x' hx => ?_
  exact ⟨hx.1, by rw [Located.map_value, Located.map_value, hx.2]; exact .constant x'.value⟩

theorem natLit_alike : Alike K E (K.Places (Node.Matches K E)) natLit natLit := by
  refine natural_alike.map fun x x' hx => ?_
  exact ⟨hx.1, by rw [Located.map_value, Located.map_value, hx.2]; exact .natLit x'.value⟩

theorem application_alike : Alike K E (Node.Matches K E) application application :=
  .named _ (.bind innerExpr_alike fun _ _ he =>
    innerExpr_alike.many1.map fun _ _ hes => .app he hes)

theorem compound_alike : Alike K E (K.Places (Node.Matches K E)) compound compound :=
  parensLocated_alike (.orElse (dispatch_alike headTable headBody_alike) application_alike)

theorem expr_alike : Alike K E (K.Places (Node.Matches K E)) expr expr := by
  refine (Parser.Related.choice fun p hp => ?_).describe _
  simp only [List.mem_cons, List.not_mem_nil, or_false] at hp
  rcases hp with rfl | rfl | rfl | rfl | rfl
  · exact tick_alike
  · exact variableName_alike
  · exact constant_alike
  · exact natLit_alike
  · exact compound_alike

/-! ## Top level -/

/-- A top-level form is alike when a command has related parts, or when it is a related expression
that keeps its own place. -/
theorem topLevel_alike {F : TopLevel → TopLevel → Prop}
    (hcommand : ∀ t t', K.Places (Statement.Matches K E) t t' → F t t')
    (hexpr : ∀ e e', K.Places (Node.Matches K E) e e' → F ⟨e.loc, .expr e⟩ ⟨e'.loc, .expr e'⟩) :
    Alike K E F topLevel topLevel := by
  refine .orElse ?_ (expr_alike.map hexpr)
  exact (parensLocated_alike (dispatch_alike commandTable commandBody_alike)).mono hcommand

end Grammar

end PieSyntax
