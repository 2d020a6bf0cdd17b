import PieSyntax.Proofs.Descent
import PieSyntax.Proofs.Exclusion
import PieSyntax.Proofs.Reordering

/-!
# The choices of the grammar are unambiguous

At most one alternative of a choice does not fail; so the order of the alternatives is immaterial, in
one choice and in all choices of the grammar at once.

A reordered grammar spends its levels of nesting in another order, so it may be cut off where the
grammar is not.  To compare the two, `Grammar.unbounded` runs productions with as much nesting as they
take.  Under any ceiling a run is cut off or is the unbounded one, and of the unbounded run it can be
said that a reordered parser does the same.

## Main results

* `Grammar.unbounded_eq` — an unbounded run unfolds as its rule says.
* `Grammar.unambiguous_rules` — the rules are unambiguous.
* `Grammar.run_eq_of_reorders` — a reordered grammar reads the same.
* `choices_unambiguous` — at most one alternative succeeds, in any order, and keywords stay keywords.
-/

namespace PieSyntax

variable {ceiling : Nat}

/-- The run fails, or it is cut off. -/
def Outcome.Declined {α : Type} (o : Outcome α) : Prop :=
  o = .interrupted .tooDeep ∨ ∃ f, o = .fail f

instance {α : Type} (o : Outcome α) : Decidable o.Declined :=
  match o with
  | .fail f => isTrue (Or.inr ⟨f, rfl⟩)
  | .interrupted .tooDeep => isTrue (Or.inl rfl)
  | .ok _ _
  | .interrupted (.stalled _ _ _)
  | .interrupted (.numeralTooLong _)
  | .interrupted (.sourceMismatch _)
  | .interrupted (.refused _) => isFalse (by rintro (h | ⟨f, h⟩) <;> cases h)

theorem Outcome.Declined.excludes {α : Type} {o o' : Outcome α} (h : o.Declined ∨ o'.Declined)
    (ho : o ≠ .interrupted .tooDeep) (ho' : o' ≠ .interrupted .tooDeep) : o.Excludes o' :=
  h.imp (fun h => h.resolve_left ho) fun h => h.resolve_left ho'

namespace Grammar

open PieSyntax.Parser

variable {source : String} {k : Nat} {c : Cursor} {α : Type} {p p' q : PieParser α}

theorem Apart.declined (h : Apart source p q) (k : Nat) (c : Cursor) :
    (rules.run k source p c).Declined ∨ (rules.run k source q c).Declined :=
  (h k c).imp Declines.eval Declines.eval

/-! ## Unbounded runs -/

/-- The outcome of a production with as much nesting as it takes. -/
def unbounded (source : String) (n : Production) (c : Cursor) : Outcome n.Result :=
  rules.call source (c.rest.length + 3) n c

theorem unbounded_aheadOf (n : Production) (c : Cursor) : (unbounded source n c).AheadOf c :=
  rules.call_reaches source _ n c

theorem call_upTo_unbounded (source : String) (k : Nat) (n : Production) (c : Cursor) :
    (rules.call source k n c).UpTo (unbounded source n c) := by
  rcases Nat.le_total k (c.rest.length + 3) with hle | hle
  · exact rules.call_upTo source hle n c
  · have hdeep : unbounded source n c ≠ .interrupted .tooDeep :=
      Tamed.ne_tooDeep (tamed_rules n) (Nat.lt_succ_self (c.rest.length + 1))
    exact Or.inr ((rules.call_upTo source hle n c).eq hdeep).symm

/-- Under any ceiling a run is cut off, or it is the unbounded one. -/
theorem run_upTo_unbounded (source : String) (k : Nat) (p : PieParser α) (c : Cursor) :
    (rules.run k source p c).UpTo (p.eval (unbounded source) source c) :=
  Parser.eval_upTo (call_upTo_unbounded source k) source p c

theorem Tamed.eval_unbounded (h : Tamed source p) (c : Cursor) :
    p.eval (unbounded source) source c = rules.run (c.rest.length + 2) source p c :=
  ((run_upTo_unbounded source _ p c).eq (Tamed.ne_tooDeep h (Nat.lt_succ_self _))).symm

/-- An unbounded run unfolds as its rule says. -/
theorem unbounded_eq (n : Production) (c : Cursor) :
    unbounded source n c = (rules n).eval (unbounded source) source c :=
  (Tamed.eval_unbounded (tamed_rules n) c).symm

theorem consumes_unbounded (hrep : Repeated p) (h : Tamed source p) :
    Consumes (unbounded source) source p := by
  intro c a d hok
  rw [Tamed.eval_unbounded h] at hok
  exact hrep.consumes c a d hok

/-! ## Unambiguous parsers -/

theorem Apart.excludes (h : Apart source p q) (hp : Tamed source p) (hq : Tamed source q) :
    Excludes (unbounded source) source p q := by
  intro c
  rw [Tamed.eval_unbounded hp, Tamed.eval_unbounded hq]
  exact Outcome.Declined.excludes (h.declined _ c) (Tamed.ne_tooDeep hp (Nat.lt_succ_self _))
    (Tamed.ne_tooDeep hq (Nat.lt_succ_self _))

/-- All parsers of the grammar that are tame are unambiguous, provided that their parts are: what is
tried after something excludes it, and what is repeated reads a character. -/
theorem inherited_unambiguous (source : String) :
    Inherited fun p => Tamed source p → p.Unambiguous (unbounded source) source where
  pure _ _ := trivial
  fail _ _ := trivial
  char _ _ := trivial
  satisfy _ _ _ _ := trivial
  text _ _ := trivial
  refine hp _ h := hp h.2
  bind hp hnext h := by
    obtain ⟨-, hfirst, hrest⟩ := h
    refine ⟨hp hfirst, fun c a d hok => ?_⟩
    rw [Tamed.eval_unbounded hfirst] at hok
    exact hnext a (hrest _ c a d hok)
  orElse hpq hp hq h :=
    unambiguous_orElse.mpr ⟨hpq.apart.excludes h.2.1 (h.2.2 0), hp h.2.1, hq (h.2.2 0)⟩
  choice hps hall h := by
    have htamed := Tamed.of_mem_choice h
    have hapart : List.Pairwise (Apart source) _ := hps.pairwise_apart
    exact unambiguous_choice.mpr ⟨hapart.imp_of_mem fun hp hq hpq =>
      hpq.excludes (htamed _ hp) (htamed _ hq), fun q hq => hall q hq (htamed q hq)⟩
  many hp h := ⟨consumes_unbounded h.1 h.2, hp h.2⟩
  located hp h := hp h.2
  named _ hp h := hp h.2
  call _ _ := trivial

theorem unambiguous_trivia : trivia.Unambiguous (unbounded source) source := by
  have hP := inherited_unambiguous source
  have hend : Tamed source ((ignored (.char '\n')).orElse .eof) →
      ((ignored (.char '\n')).orElse .eof).Unambiguous (unbounded source) source :=
    hP.either .commentEnd (hP.map _ fun _ => trivial) fun _ => trivial
  have hline : Tamed source lineComment → lineComment.Unambiguous (unbounded source) source :=
    hP.describe _ (hP.andThen (hP.andThen (hP.char (by decide)) fun _ => trivial) hend)
  have hitem : Tamed source triviaItem → triviaItem.Unambiguous (unbounded source) source := by
    refine hP.choice .triviaItem fun p hp => ?_
    have hmem : p ∈ whitespace.map (fun ch => ignored (.char ch))
      ++ [lineComment, datumComment skip innerDatum] := hp
    rcases List.mem_append.mp hmem with hwhite | hcomment
    · obtain ⟨ch, -, rfl⟩ := List.mem_map.mp hwhite
      exact hP.map _ fun _ => trivial
    · simp only [List.mem_cons, List.not_mem_nil, or_false] at hcomment
      rcases hcomment with rfl | rfl
      · exact hline
      · exact hP.datumComment
  exact hP.map _ (hP.many hitem) tamed_trivia

/-- In the rules of the grammar all alternatives exclude one another. -/
theorem unambiguous_rules (source : String) (n : Production) :
    (rules n).Unambiguous (unbounded source) source := by
  cases n with
  | spacing => exact unambiguous_trivia
  | datum => exact (inherited_unambiguous source).anyDatum tamed_anyDatum
  | expr => exact (inherited_unambiguous source).expr tamed_expr

theorem unambiguous_topLevel : topLevel.Unambiguous (unbounded source) source :=
  (inherited_unambiguous source).topLevel tamed_topLevel

/-- So they do in all that the readers run. -/
theorem Started.unambiguous (h : Started p) : p.Unambiguous (unbounded source) source := by
  have hforms : (Grammar.topLevel.manyTill .eof).Unambiguous (unbounded source) source :=
    ⟨consumes_unbounded .topLevel tamed_topLevel, unambiguous_topLevel, True.intro⟩
  have hexpr : (Grammar.trivia.andThen expr).Unambiguous (unbounded source) source :=
    ⟨unambiguous_trivia, fun _ _ _ _ => unambiguous_rules source .expr⟩
  cases h with
  | program => exact ⟨⟨True.intro, fun _ _ _ _ => unambiguous_trivia⟩, fun _ _ _ _ => hforms⟩
  | expression allowTrailing =>
      cases allowTrailing with
      | true => exact hexpr
      | false => exact ⟨hexpr, fun _ _ _ _ => True.intro⟩
  | trivia => exact unambiguous_trivia
  | topLevel => exact unambiguous_topLevel

/-! ## Reordered grammars -/

variable {rules' : Rules Production Production.Result}

/-- The calls of a reordered grammar are cut off, or they are the unbounded ones. -/
theorem call_upTo_of_reorders (h : ∀ n, Reorders (rules n) (rules' n)) (source : String) (k : Nat)
    (n : Production) (c : Cursor) : (rules'.call source k n c).UpTo (unbounded source n c) := by
  induction k generalizing n c with
  | zero => exact Or.inl rfl
  | succ k ih =>
      have hrule : (rules' n).eval (unbounded source) source c = unbounded source n c :=
        (((h n).sound unbounded_aheadOf (unambiguous_rules source n)).1 c).trans
          (unbounded_eq n c).symm
      rw [← hrule]
      exact Parser.eval_upTo ih source (rules' n) c

/-- A reordered grammar reads the same, if neither run is cut off. -/
theorem run_eq_of_reorders (h : ∀ n, Reorders (rules n) (rules' n)) (hp : Started p)
    (hp' : Reorders p p') {k k' : Nat} (hdeep : rules.run k source p c ≠ .interrupted .tooDeep)
    (hdeep' : rules'.run k' source p' c ≠ .interrupted .tooDeep) :
    rules'.run k' source p' c = rules.run k source p c := by
  have hrun' : rules'.run k' source p' c = p'.eval (unbounded source) source c :=
    (Parser.eval_upTo (call_upTo_of_reorders h source k') source p' c).eq hdeep'
  have hrun : rules.run k source p c = p.eval (unbounded source) source c :=
    (run_upTo_unbounded source k p c).eq hdeep
  rw [hrun', hrun]
  exact (hp'.sound unbounded_aheadOf hp.unambiguous).1 c

/-- One choice in another order. -/
theorem Choice.run_perm {ps qs : List (PieParser α)} (h : Choice ps) (hperm : ps.Perm qs)
    (hdeep : ∀ p ∈ ps, rules.run k source p c ≠ .interrupted .tooDeep) :
    rules.run k source (Parser.choice qs) c = rules.run k source (Parser.choice ps) c := by
  refine (eval_choice_perm (rules.call_reaches source k) hperm ?_).symm
  have hpairs : ps.Pairwise (Apart source) := h.pairwise_apart
  refine hpairs.imp_of_mem fun hp hq hapart => ?_
  exact Outcome.Declined.excludes (hapart.declined k c) (hdeep _ hp) (hdeep _ hq)

/-! ## Keyword forms -/

variable {command : Command} {d : Cursor}

theorem commandBody_ne_expr {statement : Statement}
    (h : rules.run k source (commandBody command) c = .ok statement d) (e : Expr) :
    statement ≠ .expr e := by
  rintro rfl
  cases command with
  | claim =>
      obtain ⟨name, c₁, -, hbody⟩ := eval_bind_ok h
      obtain ⟨type, -, heq⟩ := eval_map_ok hbody
      cases heq
  | define =>
      obtain ⟨name, c₁, -, hbody⟩ := eval_bind_ok h
      obtain ⟨value, -, heq⟩ := eval_map_ok hbody
      cases heq
  | checkSame =>
      obtain ⟨type, c₁, -, hbody⟩ := eval_bind_ok h
      obtain ⟨left, c₂, -, hright⟩ := eval_bind_ok hbody
      obtain ⟨right, -, heq⟩ := eval_map_ok hright
      cases heq

/-- Where no expression is read, a top-level form is a command. -/
theorem topLevel_ne_expr {t : TopLevel} (h : rules.run k source topLevel c = .ok t d)
    (hexpr : (rules.run k source expr c).Declined) (e : Expr) : t.value ≠ .expr e := by
  rcases eval_orElse_ok h with hcommand | hexample
  · obtain ⟨c₁, d₁, -, -, hbody, -⟩ := eval_parensLocated_ok hcommand
    obtain ⟨entry, c₂, -, hstatement⟩ := eval_bind_ok hbody
    exact commandBody_ne_expr hstatement e
  · obtain ⟨e', he', -⟩ := eval_map_ok hexample
    rcases hexpr with hdeep | ⟨f, hf⟩
    · cases he'.symm.trans hdeep
    · cases he'.symm.trans hf

/-- A text is no expression if none is read after the trivia that it starts with. -/
theorem parseExpression_ne_ok {text : Text} (hgap : (Cursor.start text).Gap c)
    (hsolid : Solid c.rest) (hexpr : (rules.run ceiling source expr c).Declined)
    (allowTrailing : Bool) (e : Expr) : parseExpression source text allowTrailing ceiling ≠ .ok e := by
  intro hread
  obtain ⟨d, hrun⟩ := parseExpression_eq_ok_iff.mp hread
  obtain ⟨d', hboth⟩ : ∃ d', rules.run ceiling source (trivia.andThen expr) (.start text) =
      .ok e d' := by
    cases allowTrailing with
    | true => exact ⟨d, hrun⟩
    | false =>
        obtain ⟨-, d', hboth, -⟩ := eval_followedBy_ok hrun
        exact ⟨d', hboth⟩
  obtain ⟨u, c', htrivia, hok⟩ := eval_andThen_ok hboth
  have hreturns : Returns (rules.call source ceiling) source (.empty True) trivia
      (.start text) () c := returns_trivia hgap (clear_of_solid hsolid) (Or.inl trivial)
  rcases hreturns.eval with ⟨-, hdeep⟩ | hskipped
  · cases htrivia.symm.trans hdeep
  · cases htrivia.symm.trans hskipped
    rcases hexpr with hdeep | ⟨f, hf⟩
    · cases hok.symm.trans hdeep
    · cases hok.symm.trans hf

end Grammar

/-- The choices of the grammar are unambiguous.  Of any two alternatives of a choice one fails,
wherever they are tried, unless it is cut off; so the order of the alternatives is immaterial, in one
choice and in all choices at once.  A form whose keyword heads expressions is no application, and
nothing at all if the production of the keyword fails; a form with the keyword of a command is never
an expression, and a text that starts with one is rejected where an expression is to be read. -/
theorem choices_unambiguous (source : String) :
    (∀ {α : Type} (ps : List (PieParser α)), Grammar.Choice ps → ∀ k c,
      ps.Pairwise (fun p q => (Grammar.rules.run k source p c).Declined ∨
        (Grammar.rules.run k source q c).Declined) ∧
      ∀ qs, ps.Perm qs → (∀ p ∈ ps, Grammar.rules.run k source p c ≠ .interrupted .tooDeep) →
        Grammar.rules.run k source (.choice qs) c = Grammar.rules.run k source (.choice ps) c) ∧
    (∀ rules' : Rules Production Production.Result,
      (∀ n, Parser.Reorders (Grammar.rules n) (rules' n)) →
        ∀ {α : Type} (p p' : PieParser α), Grammar.Started p → Parser.Reorders p p' → ∀ k k' c,
          Grammar.rules.run k source p c ≠ .interrupted .tooDeep →
            rules'.run k' source p' c ≠ .interrupted .tooDeep →
              rules'.run k' source p' c = Grammar.rules.run k source p c) ∧
    ∀ c c₁ name, Grammar.OpensWith c c₁ name → ∀ k,
      (∀ head, headTable.lookup name = some head →
        (Grammar.rules.run k source Grammar.application c₁).Declined ∧
        ((Grammar.rules.run k source (Grammar.dispatch headTable Grammar.headBody) c₁).Declined →
          (Grammar.rules.run k source Grammar.expr c).Declined ∧
            (Grammar.rules.run k source Grammar.topLevel c).Declined)) ∧
      ∀ command, commandTable.lookup name = some command →
        (Grammar.rules.run k source Grammar.expr c).Declined ∧
          (∀ t d, Grammar.rules.run k source Grammar.topLevel c = .ok t d →
            ∀ e, t.value ≠ .expr e) ∧
          ∀ text, (Cursor.start text).Gap c →
            ∀ allowTrailing e, parseExpression source text allowTrailing ceiling ≠ .ok e := by
  refine ⟨fun ps hps k c => ⟨?_, fun qs hperm => hps.run_perm hperm⟩,
    fun rules' h _ p p' hp hp' k k' c => Grammar.run_eq_of_reorders h hp hp',
    fun c c₁ name hopens k => ⟨fun head hlookup => ⟨?_, fun hbody => ⟨?_, ?_⟩⟩,
      fun command hlookup => ?_⟩⟩
  · exact hps.pairwise_apart.imp fun hapart => hapart.declined k c
  · exact (Grammar.declines_application_of_head hopens.word hlookup).eval
  · exact (Grammar.declines_expr_of_head hopens hlookup (.of_eval_or hbody)).eval
  · exact (Grammar.declines_topLevel_of_head hopens hlookup
      (.of_eval_or hbody)).eval
  · have hexpr : (Grammar.rules.run k source Grammar.expr c).Declined :=
      (hopens.declines_expr hlookup).eval
    obtain ⟨r, hr⟩ := hopens.opens
    exact ⟨hexpr, fun t d ht e => Grammar.topLevel_ne_expr ht hexpr e, fun text hgap =>
      Grammar.parseExpression_ne_ok hgap (hr ▸ solid_cons (by decide) r)
        (hopens.declines_expr hlookup).eval⟩

namespace Grammar

/-- The grammar with the alternatives for an expression in the opposite order. -/
def backwards : Rules Production Production.Result
  | .spacing => trivia
  | .datum => anyDatum
  | .expr =>
    (Parser.choice [compound, natLit, constant, variableName, tick]).describe "expression"

theorem reorders_backwards (n : Production) : Parser.Reorders (rules n) (backwards n) := by
  cases n with
  | spacing => exact .refl _
  | datum => exact .refl _
  | expr =>
      have hperm : [tick, variableName, constant, natLit, compound].Perm
        [compound, natLit, constant, variableName, tick] := (List.reverse_perm _).symm
      exact .named _ _ (.orElse (.choice hperm) (.refl _))

end Grammar

/-- Keyword forms that lack an argument, and an application that is read backwards. -/
theorem unambiguous_examples :
    (Grammar.rules.run nestingCeiling "<memory>" Grammar.topLevel
      (.start "(add1)".toList)).Declined ∧
    (∀ e, parseExpression "<memory>" "(claim x)".toList false ≠ .ok e) ∧
    Grammar.backwards.run nestingCeiling "<memory>"
        (Grammar.trivia.andThen (Grammar.backwards .expr)) (.start "(f zero)".toList) =
      Grammar.rules.run nestingCeiling "<memory>" (expressionParser true)
        (.start "(f zero)".toList) := by
  obtain ⟨-, hreorder, hkeywords⟩ := choices_unambiguous "<memory>"
  have hadd : Grammar.OpensWith (.start "(add1)".toList)
      ((Cursor.start "(add1)".toList).skip ['(']) "add1".toList :=
    ⟨⟨"add1)".toList, by decide⟩, ⟨.refl _, .none _⟩, by decide⟩
  have hclaim : Grammar.OpensWith (.start "(claim x)".toList)
      ((Cursor.start "(claim x)".toList).skip ['(']) "claim".toList :=
    ⟨⟨"claim x)".toList, by decide⟩, ⟨.refl _, .none _⟩, by decide⟩
  refine ⟨?_, ?_, ?_⟩
  · have hbody : (Grammar.rules.run nestingCeiling "<memory>"
        (Grammar.dispatch headTable Grammar.headBody)
          ((Cursor.start "(add1)".toList).skip ['('])).Declined := by decide +kernel
    exact (((hkeywords _ _ _ hadd nestingCeiling).1 (.form .add1) (by decide)).2 hbody).2
  · exact ((hkeywords _ _ _ hclaim nestingCeiling).2 .claim (by decide)).2.2 _
      ⟨.refl _, .none _⟩ false
  · have hread : ¬ (Grammar.backwards.run nestingCeiling "<memory>"
        (Grammar.trivia.andThen (Grammar.backwards .expr)) (.start "(f zero)".toList)).Declined := by
      decide +kernel
    exact hreorder Grammar.backwards Grammar.reorders_backwards _ _ (.expression true)
      (.named _ _ (.bind (.refl _) fun _ => Grammar.reorders_backwards .expr)) _ _ _
      (Grammar.Tamed.ne_tooDeep (Grammar.Started.expression true).tamed (by decide))
      fun hdeep => hread (Or.inl hdeep)

end PieSyntax
