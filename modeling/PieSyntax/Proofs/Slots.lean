import PieSyntax.Proofs.Sound

/-!
# The lists of the language and what they ask for

Every list is written the same way: an opening parenthesis, in some lists a keyword, a row of items
that must be there, in some lists any number of further items of one kind, and a closing
parenthesis.  A *slot* is what may be asked for at one place, and a *shape* is the slots of a list.

Where a parser fails does not depend on the values that it returns.  One parser `RunsAs` another if
they differ in their values only, and what stands between the parentheses of a form is read by a
parser that runs as that of its shape.

## Main results

* `Parser.RunsAs.bind`, `Parser.RunsAs.many`, … — parsers built alike from parsers that are alike.
* `Grammar.runsAs_headBody`, `Grammar.runsAs_commandBody`, `Grammar.runsAs_application` — each form is
  read as its shape says.
* `Slot.Opens.accepts` — items that fit a shape make a list that is accepted.
-/

namespace PieSyntax

/-! ## Parsers up to their values -/

namespace Outcome

variable {α : Type}

/-- The outcome without its value. -/
def void : Outcome α → Outcome Unit
  | .ok _ d => .ok () d
  | .fail f => .fail f
  | .interrupted why => .interrupted why

@[simp] theorem void_ok (a : α) (d : Cursor) : (Outcome.ok a d).void = .ok () d := rfl

@[simp] theorem void_fail (f : Failure) : (Outcome.fail f : Outcome α).void = .fail f := rfl

@[simp] theorem void_interrupted (why : Interruption) :
    (Outcome.interrupted why : Outcome α).void = .interrupted why := rfl

theorem void_eq_ok {o : Outcome α} {d : Cursor} (h : o.void = .ok () d) : ∃ a, o = .ok a d := by
  cases o with
  | ok a e => cases h; exact ⟨a, rfl⟩
  | fail f => cases h
  | interrupted why => cases h

theorem void_eq_fail {o : Outcome α} {f : Failure} (h : o.void = .fail f) : o = .fail f := by
  cases o with
  | ok a d => cases h
  | fail g => cases h; rfl
  | interrupted why => cases h

theorem void_eq_interrupted {o : Outcome α} {why : Interruption} (h : o.void = .interrupted why) :
    o = .interrupted why := by
  cases o with
  | ok a d => cases h
  | fail f => cases h
  | interrupted why' => cases h; rfl

end Outcome

namespace Parser

variable {N : Type} {R : N → Type} {α β γ δ : Type}

/-- The parsers differ in their values only. -/
def RunsAs (p : Parser N R α) (q : Parser N R β) : Prop :=
  ∀ (call : (n : N) → Cursor → Outcome (R n)) (source : String) (c : Cursor),
    (p.eval call source c).void = (q.eval call source c).void

namespace RunsAs

variable {p : Parser N R α} {q : Parser N R β} {r : Parser N R γ}

theorem refl (p : Parser N R α) : RunsAs p p := fun _ _ _ => rfl

theorem symm (h : RunsAs p q) : RunsAs q p := fun call source c => (h call source c).symm

theorem trans (h : RunsAs p q) (h' : RunsAs q r) : RunsAs p r :=
  fun call source c => (h call source c).trans (h' call source c)

theorem eval_eq_fail (h : RunsAs p q) {call : (n : N) → Cursor → Outcome (R n)} {source : String}
    {c : Cursor} {f : Failure} (hp : p.eval call source c = .fail f) :
    q.eval call source c = .fail f := by
  have hpq := h call source c
  rw [hp] at hpq
  exact Outcome.void_eq_fail hpq.symm

theorem eval_eq_ok (h : RunsAs p q) {call : (n : N) → Cursor → Outcome (R n)} {source : String}
    {c d : Cursor} {a : α} (hp : p.eval call source c = .ok a d) :
    ∃ b, q.eval call source c = .ok b d := by
  have hpq := h call source c
  rw [hp] at hpq
  exact Outcome.void_eq_ok hpq.symm

theorem eval_eq_interrupted (h : RunsAs p q) {call : (n : N) → Cursor → Outcome (R n)}
    {source : String} {c : Cursor} {why : Interruption}
    (hp : p.eval call source c = .interrupted why) : q.eval call source c = .interrupted why := by
  have hpq := h call source c
  rw [hp] at hpq
  exact Outcome.void_eq_interrupted hpq.symm

theorem named (name : String) (h : RunsAs p q) : RunsAs (.named name p) q := h

theorem map (f : α → β) : RunsAs (p.map f) p := by
  intro call source c
  unfold Parser.map
  rw [Parser.eval]
  cases p.eval call source c <;> rfl

/-- The first parsers return values, and whatever they are the next ones are alike. -/
theorem bind {next : α → Parser N R γ} {next' : β → Parser N R δ} (h : RunsAs p q)
    (hnext : ∀ a b, RunsAs (next a) (next' b)) : RunsAs (p.bind next) (q.bind next') := by
  intro call source c
  rw [Parser.eval, Parser.eval]
  cases hp : p.eval call source c with
  | ok a d =>
      obtain ⟨b, hb⟩ := h.eval_eq_ok hp
      rw [hb]
      exact hnext a b call source d
  | fail f =>
      rw [h.eval_eq_fail hp]
      rfl
  | interrupted why =>
      rw [h.eval_eq_interrupted hp]
      rfl

/-- After the same parser the next ones may look at its value. -/
theorem bind_same {next : α → Parser N R γ} {next' : α → Parser N R δ}
    (hnext : ∀ a, RunsAs (next a) (next' a)) : RunsAs (p.bind next) (p.bind next') := by
  intro call source c
  rw [Parser.eval, Parser.eval]
  cases p.eval call source c with
  | ok a d => exact hnext a call source d
  | fail f => rfl
  | interrupted why => rfl

theorem orElse {p' : Parser N R α} {q' : Parser N R β} (h : RunsAs p q) (h' : RunsAs p' q') :
    RunsAs (p.orElse p') (q.orElse q') := by
  intro call source c
  rw [Parser.eval_orElse, Parser.eval_orElse]
  cases hp : p.eval call source c with
  | ok a d =>
      obtain ⟨b, hb⟩ := h.eval_eq_ok hp
      rw [hb]
      rfl
  | interrupted why =>
      rw [h.eval_eq_interrupted hp]
      rfl
  | fail f =>
      rw [h.eval_eq_fail hp]
      cases hp' : p'.eval call source c with
      | ok a d =>
          obtain ⟨b, hb⟩ := h'.eval_eq_ok hp'
          simp [Outcome.orElse, hb]
      | interrupted why => simp [Outcome.orElse, h'.eval_eq_interrupted hp']
      | fail g => simp [Outcome.orElse, h'.eval_eq_fail hp']

/-- Repetitions show their label when they stand still, so it has to be the same too. -/
theorem many (h : RunsAs p q) (hlabel : p.label = q.label) : RunsAs p.many q.many := by
  intro call source c
  have hloop : ∀ (fuel : Text) (c : Cursor) (as : List α) (bs : List β),
      (Outcome.manyLoop (p.eval call source) (fun _ => p.label) fuel c as).void =
        (Outcome.manyLoop (q.eval call source) (fun _ => q.label) fuel c bs).void := by
    intro fuel c as bs
    fun_induction Outcome.manyLoop (p.eval call source) (fun _ => p.label) fuel c as
        generalizing bs with
    | case1 fuel c as f hp =>
        unfold Outcome.manyLoop
        rw [h.eval_eq_fail hp]
        rfl
    | case2 fuel c as why hp =>
        unfold Outcome.manyLoop
        rw [h.eval_eq_interrupted hp]
        rfl
    | case3 fuel c as a d hp hstill =>
        obtain ⟨b, hb⟩ := h.eval_eq_ok hp
        unfold Outcome.manyLoop
        simp only [hb, if_pos hstill, hlabel, Outcome.void_interrupted]
    | case4 c as a d hp hne =>
        obtain ⟨b, hb⟩ := h.eval_eq_ok hp
        unfold Outcome.manyLoop
        simp only [hb, if_neg hne, hlabel, Outcome.void_interrupted]
    | case5 c as a d hp hne ch fuel ih =>
        obtain ⟨b, hb⟩ := h.eval_eq_ok hp
        conv => rhs; unfold Outcome.manyLoop
        simp only [hb, if_neg hne]
        exact ih (b :: bs)
  exact hloop c.rest c [] []

theorem parens {skip : Parser N R Unit} (h : RunsAs p q) :
    RunsAs (parens skip p) (parens skip q) := by
  have hopen : RunsAs ((lexeme skip (.char '(')).andThen p) ((lexeme skip (.char '(')).andThen q) :=
    named _ (symm (named _ (bind (refl _) fun _ _ => h.symm)))
  exact named _ (symm (named _ (bind hopen.symm fun _ _ => (map _).trans (map _).symm)))

/-- The places that a bracket adds are values too: both parentheses lie in the same source. -/
theorem parensLocated (skip : Parser N R Unit) (p : Parser N R α) :
    RunsAs (parensLocated skip p) (PieSyntax.parens skip p) := by
  intro call source c
  unfold PieSyntax.parensLocated PieSyntax.parens Parser.followedBy Parser.andThen Parser.map
  simp only [Parser.eval]
  cases hopen : (lexeme skip (.char '(')).eval call source c with
  | fail f => rfl
  | interrupted why => rfl
  | ok opening c₁ =>
      simp only [Outcome.andThen_ok]
      cases p.eval call source c₁ with
      | fail f => rfl
      | interrupted why => rfl
      | ok a d =>
          simp only [Outcome.andThen_ok]
          cases hclose : (lexeme skip (.char ')')).eval call source d with
          | fail f => rfl
          | interrupted why => rfl
          | ok closing e =>
              obtain ⟨-, hloc, -⟩ := eval_lexeme_char_ok hopen
              obtain ⟨-, hloc', -⟩ := eval_lexeme_char_ok hclose
              simp only [Outcome.andThen_ok, hloc, hloc', join_same_source, Outcome.void_ok]

end RunsAs

end Parser

/-! ## Slots and shapes -/

/-- What may be asked for at one place. -/
inductive Slot where
  /-- An expression. -/
  | expr
  /-- A name that may be bound. -/
  | name
  /-- The names of an abstraction, between parentheses. -/
  | names
  /-- A name with its type, between parentheses. -/
  | pair
  /-- The typed names of a dependent type, between parentheses. -/
  | pairs
  /-- A top-level form. -/
  | topLevel
  deriving DecidableEq, Repr

/-- The slots of a list, from the opening parenthesis or the keyword to the closing one: those that
must be filled, and what any number of further items may be. -/
structure Shape where
  first : List Slot
  more : Option Slot
  deriving DecidableEq, Repr

/-- A function and its arguments. -/
def Shape.application : Shape := ⟨[.expr, .expr], some .expr⟩

/-- One name or more. -/
def Shape.names : Shape := ⟨[.name], some .name⟩

/-- A name and its type. -/
def Shape.pair : Shape := ⟨[.name, .expr], none⟩

/-- One typed name or more. -/
def Shape.pairs : Shape := ⟨[.pair], some .pair⟩

/-- What follows the keyword of an expression. -/
def Head.shape : Head → Shape
  | .form f => ⟨List.replicate f.arity .expr, none⟩
  | .lambda => ⟨[.names, .expr], none⟩
  | .quantifier _ => ⟨[.pairs, .expr], none⟩
  | .arrow => ⟨[.expr, .expr], some .expr⟩

/-- What follows the keyword of a top-level form. -/
def Command.shape : Command → Shape
  | .claim => ⟨[.name, .expr], none⟩
  | .define => ⟨[.name, .expr], none⟩
  | .checkSame => ⟨[.expr, .expr, .expr], none⟩

namespace Grammar

open PieSyntax.Parser

/-- What fills a slot, without its value. -/
def slot : Slot → PieParser Unit
  | .expr => ignored innerExpr
  | .name => ignored varName
  | .names => ignored binders
  | .pair => ignored (parens skip typedBinder)
  | .pairs => ignored typedBinders
  | .topLevel => ignored topLevel

/-- Items for the slots one after the other, and then for as many more as there are. -/
def items : List Slot → Option Slot → PieParser Unit
  | [], none => .pure ()
  | [], some s => ignored (slot s).many
  | s :: rest, more => (slot s).bind fun _ => items rest more

/-- The items of a shape. -/
def inside (σ : Shape) : PieParser Unit := items σ.first σ.more

/-! ## Forms as their shapes say -/

theorem runsAs_slot {α : Type} (p : PieParser α) : RunsAs p (ignored p) := (RunsAs.map _).symm

/-- An item that must be there and then further ones. -/
theorem runsAs_many1 {α : Type} {p : PieParser α} {s : Slot} (h : RunsAs p (slot s))
    (hlabel : p.label = (slot s).label) : RunsAs p.many1 (items [s] (some s)) :=
  RunsAs.named _ (RunsAs.bind h fun _ _ =>
    (RunsAs.map _).trans ((RunsAs.many h hlabel).trans (runsAs_slot _)))

theorem runsAs_innerExpr_many1 : RunsAs innerExpr.many1 (items [.expr] (some .expr)) :=
  runsAs_many1 (runsAs_slot _) rfl

theorem runsAs_arguments (n : Nat) :
    RunsAs (arguments n) (items (List.replicate n .expr) none) := by
  induction n with
  | zero => exact fun _ _ _ => rfl
  | succ n ih => exact RunsAs.bind (runsAs_slot innerExpr) fun _ _ => (RunsAs.map _).trans ih

/-- The last item of a row. -/
theorem runsAs_last {α β : Type} {p : PieParser α} {s : Slot} (f : α → β) (h : RunsAs p (slot s)) :
    RunsAs (p.map f) (items [s] none) := by
  refine (RunsAs.map f).trans fun call source c => ?_
  rw [h call source c, items, Parser.eval]
  cases (slot s).eval call source c <;> rfl

theorem runsAs_headBody (h : Head) : RunsAs (headBody h) (inside h.shape) := by
  refine RunsAs.named _ ?_
  cases h with
  | form f => exact (RunsAs.map _).trans (runsAs_arguments f.arity)
  | lambda =>
      exact RunsAs.bind (runsAs_slot binders) fun _ _ => runsAs_last _ (runsAs_slot innerExpr)
  | quantifier q =>
      exact RunsAs.bind (runsAs_slot typedBinders) fun _ _ => runsAs_last _ (runsAs_slot innerExpr)
  | arrow =>
      exact RunsAs.bind (runsAs_slot innerExpr) fun _ _ =>
        (RunsAs.map _).trans runsAs_innerExpr_many1

theorem runsAs_application : RunsAs application (inside .application) :=
  RunsAs.named _ (RunsAs.bind (runsAs_slot innerExpr) fun _ _ =>
    (RunsAs.map _).trans runsAs_innerExpr_many1)

theorem runsAs_commandBody (command : Command) :
    RunsAs (commandBody command) (inside command.shape) := by
  refine RunsAs.named _ ?_
  cases command with
  | claim => exact RunsAs.bind (runsAs_slot varName) fun _ _ => runsAs_last _ (runsAs_slot innerExpr)
  | define => exact RunsAs.bind (runsAs_slot varName) fun _ _ => runsAs_last _ (runsAs_slot innerExpr)
  | checkSame =>
      exact RunsAs.bind (runsAs_slot innerExpr) fun _ _ =>
        RunsAs.bind (runsAs_slot innerExpr) fun _ _ => runsAs_last _ (runsAs_slot innerExpr)

/-- The names of an abstraction are a list of names. -/
theorem runsAs_binders : RunsAs (slot .names) (parens skip (inside .names)) :=
  (RunsAs.map _).trans (RunsAs.parens (runsAs_many1 (s := .name)
    ((RunsAs.map _).trans (runsAs_slot varName)) rfl))

theorem runsAs_typedBinder : RunsAs typedBinder (inside .pair) :=
  RunsAs.named _ (RunsAs.bind (runsAs_slot varName) fun _ _ => runsAs_last _ (runsAs_slot innerExpr))

/-- A name with its type is a list of the two. -/
theorem runsAs_pair : RunsAs (slot .pair) (parens skip (inside .pair)) :=
  (RunsAs.map _).trans (RunsAs.parens runsAs_typedBinder)

/-- The typed names of a dependent type are a list of pairs. -/
theorem runsAs_typedBinders : RunsAs (slot .pairs) (parens skip (inside .pairs)) :=
  (RunsAs.map _).trans (RunsAs.parens (runsAs_many1 (runsAs_slot _) rfl))

/-- What stands between the parentheses of an expression. -/
def compoundInside : PieParser Unit :=
  ((keywordTable skip headTable).bind fun entry => inside entry.value.shape).orElse
    (inside .application)

theorem runsAs_compound : RunsAs compound (parens skip compoundInside) :=
  (RunsAs.parensLocated _ _).trans (RunsAs.parens (RunsAs.orElse
    (RunsAs.bind_same fun entry => runsAs_headBody entry.value) runsAs_application))

/-- What stands between the parentheses of a command. -/
def commandInside : PieParser Unit :=
  (keywordTable skip commandTable).bind fun entry => inside entry.value.shape

theorem runsAs_command :
    RunsAs (parensLocated skip (dispatch commandTable commandBody)) (parens skip commandInside) :=
  (RunsAs.parensLocated _ _).trans (RunsAs.parens
    (RunsAs.bind_same fun entry => runsAs_commandBody entry.value))

end Grammar

/-! ## What fills a slot -/

/-- The S-expression fills the slot. -/
def Slot.Accepts : Slot → SExpr Location → Prop
  | .expr, x => ∃ e, elaborate id x = some e
  | .name, x => ∃ name, elaborateName id x = some name
  | .names, x => ∃ bs, elaborateBinders id x = some bs ∧ bs ≠ []
  | .pair, x => ∃ b, elaboratePair id x = some b
  | .pairs, x => ∃ bs, elaborateTypedBinders id x = some bs ∧ bs ≠ []
  | .topLevel, x => ∃ t, elaborateTopLevel id x = some t

/-- The S-expressions fill the slots one after the other, and the further ones that many more. -/
def AcceptAll : List Slot → Option Slot → List (SExpr Location) → Prop
  | [], none, xs => xs = []
  | [], some s, xs => ∀ x ∈ xs, s.Accepts x
  | s :: rest, more, xs => ∃ y ys, xs = y :: ys ∧ s.Accepts y ∧ AcceptAll rest more ys

/-- The S-expressions fill a row of slots and the slots after it. -/
theorem AcceptAll.append {row rest : List Slot} {more : Option Slot}
    {xs ys : List (SExpr Location)} (hxs : AcceptAll row none xs)
    (hys : AcceptAll rest more ys) : AcceptAll (row ++ rest) more (xs ++ ys) := by
  induction row generalizing xs with
  | nil =>
      obtain rfl := hxs
      exact hys
  | cons s row ih =>
      obtain ⟨x, xs, rfl, hx, hxs⟩ := hxs
      exact ⟨x, xs ++ ys, rfl, hx, ih hxs⟩

theorem AcceptAll.concat {s : Slot} {row : List Slot} {xs : List (SExpr Location)}
    {x : SExpr Location} (hxs : AcceptAll row none xs) (hx : s.Accepts x) :
    AcceptAll (row ++ [s]) none (xs ++ [x]) := by
  have hrow : AcceptAll [s] none [x] := ⟨x, [], rfl, hx, rfl⟩
  exact hxs.append hrow

/-- A row of items and none after it. -/
theorem AcceptAll.of_row {row : List Slot} {xs : List (SExpr Location)}
    (hrow : AcceptAll row none xs) (more : Option Slot) : AcceptAll row more xs := by
  have hnone : AcceptAll [] more [] := by
    cases more with
    | none => rfl
    | some s => exact List.forall_mem_nil _
  simpa using hrow.append hnone

theorem exists_elaborateAll {xs : List (SExpr Location)} (h : ∀ x ∈ xs, Slot.expr.Accepts x) :
    ∃ es, elaborateAll id xs = some es := by
  induction xs with
  | nil => exact ⟨[], rfl⟩
  | cons x xs ih =>
      obtain ⟨e, he⟩ := h x List.mem_cons_self
      obtain ⟨es, hes⟩ := ih fun y hy => h y (List.mem_cons_of_mem _ hy)
      exact ⟨e :: es, by rw [elaborateAll, he, hes]; rfl⟩

theorem exists_elaborateNames {xs : List (SExpr Location)} (h : ∀ x ∈ xs, Slot.name.Accepts x) :
    ∃ bs, elaborateNames id xs = some bs := by
  induction xs with
  | nil => exact ⟨[], rfl⟩
  | cons x xs ih =>
      obtain ⟨name, hname⟩ := h x List.mem_cons_self
      obtain ⟨bs, hbs⟩ := ih fun y hy => h y (List.mem_cons_of_mem _ hy)
      exact ⟨⟨name.loc, name.value⟩ :: bs, by rw [elaborateNames, hname, hbs]; rfl⟩

theorem exists_elaboratePairs {xs : List (SExpr Location)} (h : ∀ x ∈ xs, Slot.pair.Accepts x) :
    ∃ bs, elaboratePairs id xs = some bs := by
  induction xs with
  | nil => exact ⟨[], rfl⟩
  | cons x xs ih =>
      obtain ⟨b, hb⟩ := h x List.mem_cons_self
      obtain ⟨bs, hbs⟩ := ih fun y hy => h y (List.mem_cons_of_mem _ hy)
      exact ⟨b :: bs, by rw [elaboratePairs, hb, hbs]; rfl⟩

/-- As many expressions as a form has arguments. -/
theorem exists_formNode {f : Form} {n : Nat} (hn : n = f.arity) {xs : List (SExpr Location)}
    (h : AcceptAll (List.replicate n .expr) none xs) :
    ∃ node, (elaborateAll id xs).bind (formNode f) = some node := by
  have hargs : ∀ (n : Nat) (xs : List (SExpr Location)),
      AcceptAll (List.replicate n .expr) none xs →
        ∃ es args, elaborateAll id xs = some es ∧ Arguments.ofList n es = some args := by
    intro n
    induction n with
    | zero =>
        rintro xs rfl
        exact ⟨[], .nil, rfl, rfl⟩
    | succ n ih =>
        rintro xs ⟨y, ys, rfl, ⟨e, he⟩, hys⟩
        obtain ⟨es, args, hes, hargs⟩ := ih ys hys
        refine ⟨e :: es, .cons e args, ?_, ?_⟩
        · rw [elaborateAll, he, hes]
          rfl
        · rw [Arguments.ofList, hargs]
          rfl
  subst hn
  obtain ⟨es, args, hes, hargs⟩ := hargs f.arity xs h
  exact ⟨.form f args, by rw [hes, Option.bind_some, formNode, hargs]; rfl⟩

/-- The items after a keyword. -/
theorem exists_elaborateList_head {x : SExpr Location} {h : Head} (hx : x.head? = some h)
    {xs : List (SExpr Location)} (hxs : AcceptAll h.shape.first h.shape.more xs) :
    ∃ node, elaborateList id (x :: xs) = some node := by
  cases h with
  | form f =>
      rw [elaborateList_form id hx]
      exact exists_formNode rfl hxs
  | lambda =>
      obtain ⟨y, _, rfl, ⟨bs, hbs, hne⟩, z, _, rfl, ⟨e, he⟩, rfl⟩ := hxs
      refine ⟨.lambda bs e, ?_⟩
      rw [elaborateList_lambda id hx, hbs, he, Option.bind_some, Option.bind_some, lambdaNode,
        if_neg (by simpa using hne)]
  | quantifier q =>
      obtain ⟨y, _, rfl, ⟨bs, hbs, hne⟩, z, _, rfl, ⟨e, he⟩, rfl⟩ := hxs
      refine ⟨.quantified q bs e, ?_⟩
      rw [elaborateList_quantifier id hx, hbs, he, Option.bind_some, Option.bind_some,
        quantifiedNode, if_neg (by simpa using hne)]
  | arrow =>
      obtain ⟨y, _, rfl, ⟨e, he⟩, z, zs, rfl, ⟨e', he'⟩, hmore⟩ := hxs
      obtain ⟨es, hes⟩ := exists_elaborateAll hmore
      refine ⟨.arrow e (e' :: es), ?_⟩
      rw [elaborateList_arrow id hx, elaborateAll, elaborateAll, he, he', hes]
      rfl

theorem exists_elaborateList_application {xs : List (SExpr Location)}
    (hxs : AcceptAll Shape.application.first Shape.application.more xs) :
    ∃ node, elaborateList id xs = some node := by
  obtain ⟨y, _, rfl, ⟨e, he⟩, z, zs, rfl, ⟨e', he'⟩, hmore⟩ := hxs
  obtain ⟨es, hes⟩ := exists_elaborateAll hmore
  refine ⟨.app e (e' :: es), ?_⟩
  rw [elaborateList_application id (head?_eq_none_of_elaborate he).1, elaborateAll, he, he', hes]
  rfl

/-- What an expression fills, a top-level form fills too. -/
theorem Slot.Accepts.topLevel {x : SExpr Location} (h : Slot.expr.Accepts x) :
    Slot.topLevel.Accepts x := by
  obtain ⟨e, he⟩ := h
  refine ⟨⟨e.loc, .expr e⟩, ?_⟩
  rw [elaborateTopLevel, asCommand?_eq_none_of_elaborate he]
  simp only [he]
  rfl

/-- A list that fills the slot may start with the items of `lead` and go on as the shape says. -/
inductive Slot.Opens : Slot → List (SExpr Location) → Shape → Prop where
  | application : Opens .expr [] .application
  | head {loc : Location} {name : Text} {h : Head} (hlookup : headTable.lookup name = some h) :
    Opens .expr [.word loc name] h.shape
  | names : Opens .names [] .names
  | pair : Opens .pair [] .pair
  | pairs : Opens .pairs [] .pairs
  | command {loc : Location} {name : Text} {command : Command}
    (hlookup : commandTable.lookup name = some command) :
    Opens .topLevel [.word loc name] command.shape

/-- The items of a command. -/
theorem exists_elaborateCommand {command : Command} {xs : List (SExpr Location)}
    (hxs : AcceptAll command.shape.first command.shape.more xs) :
    ∃ statement, elaborateCommand id command xs = some statement := by
  cases command with
  | claim =>
      obtain ⟨y, _, rfl, ⟨name, hname⟩, z, _, rfl, ⟨e, he⟩, rfl⟩ := hxs
      exact ⟨.claim name e, by rw [elaborateCommand, hname, he]; rfl⟩
  | define =>
      obtain ⟨y, _, rfl, ⟨name, hname⟩, z, _, rfl, ⟨e, he⟩, rfl⟩ := hxs
      exact ⟨.define name e, by rw [elaborateCommand, hname, he]; rfl⟩
  | checkSame =>
      obtain ⟨y, _, rfl, ⟨e, he⟩, z, _, rfl, ⟨e', he'⟩, w, _, rfl, ⟨e'', he''⟩, rfl⟩ := hxs
      exact ⟨.checkSame e e' e'', by rw [elaborateCommand, he, he', he'']; rfl⟩

/-- Items that fit the shape make a list that fills the slot. -/
theorem Slot.Opens.accepts {s : Slot} {lead xs : List (SExpr Location)} {σ : Shape}
    (h : s.Opens lead σ) (hxs : AcceptAll σ.first σ.more xs) (loc : Location) :
    s.Accepts (.list loc (lead ++ xs)) := by
  cases h with
  | application =>
      obtain ⟨node, hnode⟩ := exists_elaborateList_application hxs
      exact ⟨⟨loc, node⟩, by rw [List.nil_append, elaborate, hnode]; rfl⟩
  | @head loc' name h hlookup =>
      obtain ⟨node, hnode⟩ := exists_elaborateList_head (x := .word loc' name) hlookup hxs
      exact ⟨⟨loc, node⟩, by rw [List.singleton_append, elaborate, hnode]; rfl⟩
  | names =>
      obtain ⟨y, ys, rfl, ⟨name, hname⟩, hmore⟩ := hxs
      obtain ⟨bs, hbs⟩ := exists_elaborateNames hmore
      refine ⟨⟨name.loc, name.value⟩ :: bs, ?_, List.cons_ne_nil _ _⟩
      rw [List.nil_append, elaborateBinders, elaborateNames, hname, hbs]
      rfl
  | pair =>
      obtain ⟨y, _, rfl, ⟨name, hname⟩, z, _, rfl, ⟨e, he⟩, rfl⟩ := hxs
      exact ⟨.mk name.loc name.value e, by rw [List.nil_append, elaboratePair, hname, he]; rfl⟩
  | pairs =>
      obtain ⟨y, ys, rfl, ⟨b, hb⟩, hmore⟩ := hxs
      obtain ⟨bs, hbs⟩ := exists_elaboratePairs hmore
      refine ⟨b :: bs, ?_, List.cons_ne_nil _ _⟩
      rw [List.nil_append, elaborateTypedBinders, elaboratePairs, hb, hbs]
      rfl
  | @command loc' name command hlookup =>
      obtain ⟨statement, hstatement⟩ := exists_elaborateCommand hxs
      refine ⟨⟨loc, statement⟩, ?_⟩
      have hcommand : (SExpr.list loc ([.word loc' name] ++ xs)).asCommand? =
          some (loc, command, xs) := by
        rw [List.singleton_append, SExpr.asCommand?, SExpr.command?, hlookup]
        rfl
      rw [elaborateTopLevel, hcommand]
      simp only [hstatement]
      rfl

end PieSyntax
