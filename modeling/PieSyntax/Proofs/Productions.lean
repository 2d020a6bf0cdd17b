import Mathlib.Data.List.Induction
import PieSyntax.Syntax.Grammar

/-!
# What all productions inherit

Apart from trivia, the productions of the grammar are put together from few kinds of parsers: the
characters and texts that they read are no whitespace, and whoever judges a value may reject it, but
not on the ground that the input has ended.  `Inherited P` says that `P` holds of these parsers and is
kept by the ways of combining them; then `P` holds of every production.

## Main results

* `Inherited.expr`, `Inherited.topLevel` — what expressions and top-level forms inherit.
* `Inherited.anyDatum`, `Inherited.datumComment` — what data inherit, and comments that drop one.
-/

namespace PieSyntax

namespace Grammar

/-- The choices of the grammar, with their alternatives in the order in which they are tried. -/
inductive Choice : {α : Type} → List (PieParser α) → Prop where
  | expr : Choice [tick, variableName, constant, natLit, compound]
  /-- What stands between the parentheses of an expression. -/
  | body : Choice [dispatch headTable headBody, application]
  | topLevel : Choice [parensLocated skip (dispatch commandTable commandBody),
    expr.map fun e => (⟨e.loc, .expr e⟩ : TopLevel)]
  | datum : Choice [ignored (parens skip innerDatum.many), ignored identifier, ignored digits]
  | identifier : Choice [normalIdentifier, peculiarIdentifier]
  | sign : Choice [.text "+".toList, .text "-".toList, .text "...".toList]
  /-- A blank or a comment. -/
  | triviaItem : Choice (whitespace.map (fun ch => ignored (.char ch))
    ++ [lineComment, datumComment skip innerDatum])
  /-- What ends a line comment. -/
  | commentEnd : Choice [ignored (.char '\n'), .eof]

/-- The second parser is tried after the first. -/
inductive Alternatives : {α : Type} → PieParser α → PieParser α → Prop where
  | choice {α : Type} {p q : PieParser α} {ps qs : List (PieParser α)}
    (h : Choice (p :: (ps ++ q :: qs))) : Alternatives (ps.foldl .orElse p) q
  | description {α : Type} (p : PieParser α) (e : Expectation) : Alternatives p (.fail e)

/-- What the parsers of the grammar have in common, trivia apart. -/
structure Inherited (P : {α : Type} → PieParser α → Prop) : Prop where
  pure {α : Type} (a : α) : P (.pure a : PieParser α)
  fail {α : Type} {e : Expectation} (h : e ≠ .endOfInput) : P (.fail e : PieParser α)
  char {ch : Char} (h : ch ∉ whitespace) : P (.char ch)
  satisfy (description : String) {test : Char → Bool} (h : ∀ ch ∈ whitespace, test ch = false) :
    P (.satisfy description test)
  text {s : Text} (h : ∀ ch ∈ s, ch ∉ whitespace) : P (.text s)
  refine {α β : Type} {p : PieParser α} {judge : α → Verdict β} (hp : P p)
    (h : ∀ a, judge a ≠ .reject .endOfInput) : P (p.refine judge)
  bind {α β : Type} {p : PieParser α} {next : α → PieParser β} (hp : P p)
    (h : ∀ a, P (next a)) : P (p.bind next)
  orElse {α : Type} {p q : PieParser α} (h : Alternatives p q) (hp : P p) (hq : P q) :
    P (p.orElse q)
  choice {α : Type} {ps : List (PieParser α)} (h : Choice ps) (hall : ∀ p ∈ ps, P p) :
    P (Parser.choice ps)
  many {α : Type} {p : PieParser α} (hp : P p) : P p.many
  located {α : Type} {p : PieParser α} (hp : P p) : P p.located
  named {α : Type} {p : PieParser α} (name : String) (hp : P p) : P (.named name p)
  call (n : Production) : P (.call n)

namespace Inherited

variable {P : {α : Type} → PieParser α → Prop} (hP : Inherited P) {α β : Type}
variable {p : PieParser α} {q : PieParser β}

include hP

/-! ## Derived parsers -/

theorem map (f : α → β) (hp : P p) : P (p.map f) :=
  hP.refine hp fun _ => by rintro ⟨⟩

theorem andThen (hp : P p) (hq : P q) : P (p.andThen q) :=
  hP.named _ (hP.bind hp fun _ => hq)

theorem followedBy (hp : P p) (hq : P q) : P (p.followedBy q) :=
  hP.named _ (hP.bind hp fun _ => hP.map _ hq)

theorem many1 (hp : P p) : P p.many1 :=
  hP.named _ (hP.bind hp fun _ => hP.map _ (hP.many hp))

theorem describe (description : String) (hp : P p) : P (p.describe description) :=
  hP.named _ (hP.orElse (.description _ _) hp (hP.fail (by rintro ⟨⟩)))

/-- Alternatives taken two at a time inherit what a choice of them does. -/
theorem foldl {ps : List (PieParser α)} (hc : Choice (p :: ps)) (h : ∀ q ∈ p :: ps, P q) :
    P (ps.foldl .orElse p) := by
  suffices hfirst : ∀ qs rs, ps = qs ++ rs → P (qs.foldl .orElse p) from
    hfirst ps [] (List.append_nil ps).symm
  intro qs
  -- One more of the first alternatives at a time.
  induction qs using List.reverseRecOn with
  | nil => exact fun _ _ => h p List.mem_cons_self
  | append_singleton qs q ih =>
      intro rs hps
      rw [List.append_assoc] at hps
      rw [List.foldl_append]
      exact hP.orElse (.choice (hps ▸ hc)) (ih _ hps) (h q (by simp [hps]))

theorem either {q : PieParser α} (hc : Choice [p, q]) (hp : P p) (hq : P q) : P (p.orElse q) :=
  hP.foldl hc (by simp [hp, hq])

/-! ## Tokens -/

theorem lexeme (hp : P p) : P (lexeme skip p) :=
  hP.followedBy (hP.located hp) (hP.call .spacing)

theorem identifier : P (identifier : PieParser Text) := by
  have hgoes : P (Parser.satisfy "identifier subsequent character" isSubsequent).many :=
    hP.many (hP.satisfy _ (by decide))
  have hsign : P (Parser.choice [.text "+".toList, .text "-".toList, .text "...".toList]) := by
    refine hP.choice .sign fun p hp => ?_
    simp only [List.mem_cons, List.not_mem_nil, or_false] at hp
    rcases hp with rfl | rfl | rfl <;> exact hP.text (by decide)
  exact hP.either .identifier
    (hP.named _ (hP.bind (hP.satisfy _ (by decide)) fun _ => hP.map _ hgoes))
    (hP.named _ (hP.bind hsign fun _ => hP.map _ hgoes))

theorem digits : P (digits : PieParser Text) :=
  hP.describe _ (hP.many1 (hP.satisfy _ (by decide)))

theorem parens (hp : P p) : P (parens skip p) :=
  hP.followedBy (hP.andThen (hP.lexeme (hP.char (by decide))) hp) (hP.lexeme (hP.char (by decide)))

theorem parensLocated (hp : P p) : P (parensLocated skip p) := by
  refine hP.named _ (hP.bind (hP.lexeme (hP.char (by decide))) fun opening => hP.bind hp fun value =>
    hP.refine (hP.lexeme (hP.char (by decide))) fun closing => ?_)
  split <;> rintro ⟨⟩

theorem keywordTable (table : List (Text × β)) : P (keywordTable skip table) := by
  refine hP.refine (hP.lexeme hP.identifier) fun token => ?_
  split <;> rintro ⟨⟩

theorem natural : P (natural skip) := by
  refine hP.refine (hP.lexeme hP.digits) fun token => ?_
  split <;> rintro ⟨⟩

/-! ## Data -/

theorem anyDatum : P anyDatum := by
  have hitem : P (List.foldl .orElse _ [_, _]) := hP.foldl .datum fun p hp => by
    simp only [List.mem_cons, List.not_mem_nil, or_false] at hp
    rcases hp with rfl | rfl | rfl
    · exact hP.map _ (hP.parens (hP.many (hP.call .datum)))
    · exact hP.map _ hP.identifier
    · exact hP.map _ hP.digits
  exact hP.map _ (hP.lexeme hitem)

theorem datumComment : P (datumComment skip innerDatum) :=
  hP.map _ (hP.andThen (hP.lexeme (hP.text (by decide))) hP.anyDatum)

/-! ## Expressions -/

theorem varName : P varName := by
  refine hP.describe _ (hP.refine (hP.lexeme hP.identifier) fun token => ?_)
  split <;> rintro ⟨⟩

theorem binders : P binders := hP.parens (hP.many1 (hP.map _ hP.varName))

theorem typedBinders : P typedBinders :=
  hP.parens (hP.many1 (hP.parens (hP.named _ (hP.bind hP.varName fun _ =>
    hP.map _ (hP.call .expr)))))

theorem arguments (n : Nat) : P (arguments n) := by
  induction n with
  | zero => exact hP.pure _
  | succ n ih => exact hP.bind (hP.call .expr) fun _ => hP.map _ ih

theorem headBody (head : Head) : P (headBody head) := by
  have hexpr := hP.call .expr
  refine hP.named _ ?_
  cases head with
  | form f => exact hP.map _ (hP.arguments f.arity)
  | lambda => exact hP.bind hP.binders fun _ => hP.map _ hexpr
  | quantifier q => exact hP.bind hP.typedBinders fun _ => hP.map _ hexpr
  | arrow => exact hP.bind hexpr fun _ => hP.map _ (hP.many1 hexpr)

theorem application : P application :=
  hP.named _ (hP.bind (hP.call .expr) fun _ => hP.map _ (hP.many1 (hP.call .expr)))

theorem dispatch {table : List (Text × α)} {body : α → PieParser β} (h : ∀ a, P (body a)) :
    P (dispatch table body) :=
  hP.bind (hP.keywordTable table) fun entry => h entry.value

theorem tick : P tick :=
  hP.map _ (hP.lexeme (hP.andThen (hP.char (by decide)) hP.identifier))

theorem compound : P compound :=
  hP.parensLocated (hP.either .body (hP.dispatch hP.headBody) hP.application)

theorem expr : P expr := by
  refine hP.describe _ (hP.choice .expr fun p hp => ?_)
  simp only [List.mem_cons, List.not_mem_nil, or_false] at hp
  rcases hp with rfl | rfl | rfl | rfl | rfl
  · exact hP.tick
  · exact hP.map _ hP.varName
  · exact hP.map _ (hP.keywordTable _)
  · exact hP.map _ hP.natural
  · exact hP.compound

/-! ## Top-level forms -/

theorem commandBody (command : Command) : P (commandBody command) := by
  have hexpr := hP.call .expr
  refine hP.named _ ?_
  cases command with
  | claim => exact hP.bind hP.varName fun _ => hP.map _ hexpr
  | define => exact hP.bind hP.varName fun _ => hP.map _ hexpr
  | checkSame => exact hP.bind hexpr fun _ => hP.bind hexpr fun _ => hP.map _ hexpr

theorem topLevel : P topLevel :=
  hP.either .topLevel (hP.parensLocated (hP.dispatch hP.commandBody)) (hP.map _ hP.expr)

end Inherited

end Grammar

end PieSyntax
