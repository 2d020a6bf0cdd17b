import PieSyntax.Proofs.Stuck

/-!
# Expressions that fail

Each alternative for an expression looks for a first character of its own, so all but one fail where
the expression starts.  An identifier may get further by some dots, an apostrophe leads to a word,
and a parenthesis into a list, where the alternatives are a keyword with its form and an application:
the one rejects at its first item what the other goes on from.

The induction is on the ceiling.  Besides the place of a failure it carries what the alternatives
that are tried at the same place need: how far an identifier gets there.

## Main results

* `Grammar.stuck_of_eval_compound` — a bracketed expression that fails is stuck.
* `Grammar.exprStuckAt_of_eval_expr` — and so is every expression.
-/

namespace PieSyntax

namespace Grammar

open PieSyntax.Parser

variable {source : String} {k : Nat} {c d : Cursor} {f : Failure}

/-- Where an expression is stuck, neither an identifier nor a parenthesis gets any further. -/
def ExprStuckAt (source : String) (k : Nat) (c : Cursor) (f : Failure) : Prop :=
  ∃ h hints, Stuck source .expr c h hints ∧ f.At h hints ∧
    (∀ g, (identifier : PieParser Text).eval (rules.call source k) source c = .fail g →
      g.UpTo h hints) ∧
    ∀ g : Failure, c.rest.head? ≠ some '(' → g.At c ['('] → g.UpTo h hints

theorem ExprStuckAt.stuckAt (h : ExprStuckAt source k c f) : StuckAt source .expr c f := by
  obtain ⟨e, hints, hstuck, hat, -, -⟩ := h
  exact ⟨e, hints, hstuck, hat⟩

/-- Calls of the expression production that fail are stuck. -/
def CallsStuck (source : String) (k : Nat) : Prop :=
  ∀ c f, innerExpr.eval (rules.call source k) source c = .fail f → ExprStuckAt source k c f

/-- The parser of identifiers calls nothing. -/
theorem eval_identifier_call (j k : Nat) : (identifier : PieParser Text).eval (rules.call source j)
    source c = (identifier : PieParser Text).eval (rules.call source k) source c := rfl

/-- Before an apostrophe or a parenthesis, an identifier fails at its start. -/
theorem at_of_eval_identifier {ch : Char} {r : Text} (hr : c.rest = ch :: r) (hch : ch ≠ '.')
    (h : (identifier : PieParser Text).eval (rules.call source k) source c = .fail f) :
    f.At c ['+', '-', '.'] := by
  obtain ⟨u, r', hu, hr', -, hat⟩ := eval_identifier_fail h
  rcases hu with rfl | rfl | rfl
  · rw [Cursor.skip_nil] at hat
    exact hat
  · rw [hr] at hr'
    exact absurd (List.cons.inj hr').1 hch
  · rw [hr] at hr'
    exact absurd (List.cons.inj hr').1 hch

theorem eval_tick_fail (h : tick.eval (rules.call source k) source c = .fail f) :
    (c.rest.head? ≠ some '\'' ∧ f.At c ['\'']) ∨
      ∃ u r, Dots u ∧ c.rest = '\'' :: (u ++ r) ∧ f.At (c.skip ('\'' :: u)) (wordHints u) := by
  rcases eval_andThen_fail (eval_lexeme_fail (eval_map_fail h)) with hmark | ⟨ch, d, hmark, hword⟩
  · exact Or.inl (eval_char_fail hmark)
  · obtain ⟨-, ⟨r, hr⟩, rfl⟩ := eval_char_ok _ _ hmark
    obtain ⟨u, r', hu, hr', -, hat⟩ := eval_identifier_fail hword
    rw [Cursor.rest_skip (u := ['\'']) (r := r) hr] at hr'
    rw [Cursor.skip_skip, List.singleton_append] at hat
    exact Or.inr ⟨u, r', hu, by rw [hr, hr'], hat⟩

theorem eval_natLit_fail (h : natLit.eval (rules.call source k) source c = .fail f) :
    f.At c [] := by
  rcases eval_refine_fail (eval_map_fail h) with htoken | ⟨token, d, e, -, hj, -⟩
  · exact eval_digits_fail (eval_lexeme_fail htoken)
  · split at hj <;> cases hj

section

variable {h : Cursor} {hints : List Char} (hreach : c.Reaches h)
variable (hword : ∀ g, (identifier : PieParser Text).eval (rules.call source k) source c = .fail g →
  g.UpTo h hints)

include hreach hword

/-- A name gets no further than an identifier. -/
theorem upTo_of_eval_variableName
    (hfail : variableName.eval (rules.call source k) source c = .fail f) : f.UpTo h hints := by
  have hname : Failure.At c [] ⟨c.pos, .ofDescription "name"⟩ :=
    ⟨rfl, Expectation.within_ofDescription _⟩
  rcases eval_varName_fail (eval_map_fail hfail) with ⟨g, hg, rfl⟩ | ⟨-, hat⟩
  · exact (hword g hg).furthest (hname.upTo_of_reaches hreach)
  · exact hat.upTo_of_reaches hreach

/-- A keyword gets no further than an identifier. -/
theorem upTo_of_eval_keywordTable {β : Type} {table : List (Text × β)}
    (hfail : (keywordTable skip table).eval (rules.call source k) source c = .fail f) :
    f.UpTo h hints := by
  rcases eval_keywordTable_fail hfail with hid | ⟨-, hat⟩
  · exact hword f hid
  · exact hat.upTo_of_reaches hreach

end

/-- The choice among the expressions fails with the failure of the alternative that its first
character stands for, and otherwise at its start. -/
theorem at_of_eval_expr {h : Cursor} {hints : List Char}
    (hfail : expr.eval (rules.call source k) source c = .fail f) (hreach : c.Reaches h)
    (htick : ∀ g, tick.eval (rules.call source k) source c = .fail g → g.UpTo h hints)
    (hword : ∀ g, (identifier : PieParser Text).eval (rules.call source k) source c = .fail g →
      g.UpTo h hints)
    (hcompound : ∀ g, compound.eval (rules.call source k) source c = .fail g → g.UpTo h hints)
    (hsome : ∃ p ∈ [tick, variableName, constant, natLit, compound],
      ∀ g, p.eval (rules.call source k) source c = .fail g → g.At h hints) : f.At h hints := by
  refine at_of_eval_describe hfail hreach fun g hg => at_of_eval_choice hg (fun p hp g hg => ?_) hsome
  simp only [List.mem_cons, List.not_mem_nil, or_false] at hp
  rcases hp with rfl | rfl | rfl | rfl | rfl
  · exact htick g hg
  · exact upTo_of_eval_variableName hreach hword hg
  · exact upTo_of_eval_keywordTable hreach hword (eval_map_fail hg)
  · exact (eval_natLit_fail hg).upTo_of_reaches hreach
  · exact hcompound g hg

/-- Without an opening parenthesis, a bracketed expression fails at its start. -/
theorem at_of_eval_compound (hhead : c.rest.head? ≠ some '(')
    (h : compound.eval (rules.call source k) source c = .fail f) : f.At c ['('] := by
  rcases eval_parens_fail (runsAs_compound.eval_eq_fail h) with ⟨-, hat⟩ | ⟨r, c₁, hr, -⟩
  · exact hat
  · exact absurd (by rw [hr]; rfl) hhead

/-- What starts with a word starts with no other character. -/
theorem head_ne_of_wordPrefix {name : Text} (hword : wordPrefix c.rest = some name) (ch : Char)
    (hch : isWordStart ch = false) : c.rest.head? ≠ some ch := by
  obtain ⟨r, hr⟩ := exists_of_wordPrefix hword
  obtain ⟨x, t, rfl, hx⟩ := (IsWord.of_wordPrefix hword).head
  intro hhead
  rw [hr] at hhead
  cases hhead
  rw [hch] at hx
  cases hx

/-- A reserved word that stands for no constant is no expression. -/
theorem eval_expr_ne_ok_of_reserved {name : Text} (hword : wordPrefix c.rest = some name)
    (hreserved : isFreeName name = false) (hlookup : constantTable.lookup name = none) (e : Expr)
    (d : Cursor) : expr.eval (rules.call source k) source c ≠ .ok e d := by
  intro hok
  obtain ⟨x, m, hx, hmean, -⟩ := stands_of_eval_expr hok
  cases x with
  | word loc name' =>
      obtain ⟨hname, -, -⟩ := hx
      rw [hword, Option.some.injEq] at hname
      subst hname
      simp [elaborate, elaborateWord, hlookup, hreserved] at hmean
  | quoted loc name' =>
      obtain ⟨s, hs, -⟩ := hx
      exact head_ne_of_wordPrefix hword '\'' (by decide) (by rw [hs]; rfl)
  | numeral loc run =>
      rw [wordPrefix_of_digitPrefix hx.1] at hword
      cases hword
  | list loc xs =>
      obtain ⟨c₁, d', ⟨s, hs⟩, -⟩ := hx
      exact head_ne_of_wordPrefix hword '(' (by decide) (by rw [hs]; rfl)

/-- It is rejected where it starts. -/
theorem at_of_eval_expr_of_reserved {name : Text} (hword : wordPrefix c.rest = some name)
    (h : expr.eval (rules.call source k) source c = .fail f) : f.At c Slot.expr.hints := by
  have htick : ∀ g, tick.eval (rules.call source k) source c = .fail g →
      g.At c Slot.expr.hints := by
    intro g hg
    rcases eval_tick_fail hg with ⟨-, hat⟩ | ⟨u, s, -, hs, -⟩
    · refine hat.mono fun x hx => ?_
      rw [List.mem_singleton.mp hx]
      decide
    · exact absurd (by rw [hs]; rfl) (head_ne_of_wordPrefix hword '\'' (by decide))
  refine at_of_eval_expr h (Cursor.Reaches.refl c) (fun g hg => (htick g hg).upTo)
    (fun g hg => ?_) (fun g hg => ?_) ⟨tick, by simp, htick⟩
  · rw [eval_identifier_of_some _ _ hword] at hg
    cases hg
  · have hopen := head_ne_of_wordPrefix hword '(' (by decide)
    refine ((at_of_eval_compound hopen hg).mono fun x hx => ?_).upTo
    rw [List.mem_singleton.mp hx]
    decide

/-- The keywords at the head of a list are reserved, and none is a constant. -/
theorem reserved_of_lookup_head {name : Text} {head : Head}
    (h : headTable.lookup name = some head) :
    isFreeName name = false ∧ constantTable.lookup name = none := by
  have hall : ∀ p ∈ headTable, isFreeName p.1 = false ∧ constantTable.lookup p.1 = none := by
    decide
  exact hall _ (mem_of_lookup h)

theorem reserved_of_lookup_command {name : Text} {command : Command}
    (h : commandTable.lookup name = some command) :
    isFreeName name = false ∧ constantTable.lookup name = none ∧ headTable.lookup name = none := by
  have hall : ∀ p ∈ commandTable, isFreeName p.1 = false ∧ constantTable.lookup p.1 = none ∧
      headTable.lookup p.1 = none := by
    decide
  exact hall _ (mem_of_lookup h)

/-- Where an S-expression stands, an identifier that fails does so at its start. -/
theorem at_of_stands {x : SExpr Location} {m : Cursor} (hx : x.Stands source c m)
    (h : (identifier : PieParser Text).eval (rules.call source k) source c = .fail f) :
    f.At c ['+', '-', '.'] := by
  cases x with
  | word loc name =>
      rw [eval_identifier_of_some _ _ hx.1] at h
      cases h
  | quoted loc name =>
      obtain ⟨r, hr, -⟩ := hx
      exact at_of_eval_identifier hr (by decide) h
  | numeral loc run =>
      obtain ⟨hrun, -, -⟩ := hx
      obtain ⟨r, hr⟩ := exists_of_digitPrefix hrun
      obtain ⟨ch, t, rfl, hch⟩ := head_of_digitPrefix hrun
      refine at_of_eval_identifier (r := t ++ r) hr ?_ h
      rintro rfl
      revert hch
      decide
  | list loc xs =>
      obtain ⟨c₁, d, ⟨r, hr⟩, -⟩ := hx
      exact at_of_eval_identifier hr (by decide) h

/-- A reserved word at the start of an application. -/
theorem at_of_eval_application {name : Text} (hword : wordPrefix c.rest = some name)
    (hreserved : isFreeName name = false) (hlookup : constantTable.lookup name = none)
    (h : (inside .application).eval (rules.call source k) source c = .fail f) :
    f.At c Slot.expr.hints := by
  cases k with
  | zero => rcases eval_bind_fail h with hs | ⟨u, d, hs, -⟩ <;> cases hs
  | succ k =>
      rcases eval_bind_fail h with hs | ⟨u, d, hs, -⟩
      · have hexpr : innerExpr.eval (rules.call source (k + 1)) source c = .fail f :=
          eval_map_fail hs
        exact at_of_eval_expr_of_reserved hword hexpr
      · obtain ⟨e, he, -⟩ := eval_map_ok hs
        exact absurd he (eval_expr_ne_ok_of_reserved hword hreserved hlookup e d)

/-- An expression whose first character fits no alternative fails at its start. -/
theorem exprStuckAt_start (h : expr.eval (rules.call source k) source c = .fail f)
    (hopen : c.rest.head? ≠ some '(') {g : Failure}
    (htick : tick.eval (rules.call source k) source c = .fail g) (hmark : g.At c ['\''])
    (hword : ∀ g, (identifier : PieParser Text).eval (rules.call source k) source c = .fail g →
      g.UpTo c Slot.expr.hints) : ExprStuckAt source k c f := by
  have hopened : ∀ g : Failure, g.At c ['('] → g.UpTo c Slot.expr.hints :=
    fun g hg => (hg.mono fun ch hch => by revert ch; decide).upTo
  have hquoted : ∀ g', tick.eval (rules.call source k) source c = .fail g' →
      g'.At c Slot.expr.hints := by
    intro g' hg'
    rw [htick] at hg'
    cases hg'
    exact hmark.mono fun ch hch => by revert ch; decide
  exact ⟨c, _, .start .expr c,
    at_of_eval_expr h (Cursor.Reaches.refl c) (fun g hg => (hquoted g hg).upTo) hword
      (fun g hg => hopened g (at_of_eval_compound hopen hg)) ⟨tick, by simp, hquoted⟩,
    hword, fun g _ hg => hopened g hg⟩

/-- Dots that make no word. -/
theorem exprStuckAt_word {u r : Text} (h : expr.eval (rules.call source k) source c = .fail f)
    (hu : Dots u) (hne : u ≠ []) (hr : c.rest = u ++ r) (hquote : c.rest.head? ≠ some '\'')
    (hopen : c.rest.head? ≠ some '(') {g : Failure}
    (hg : (identifier : PieParser Text).eval (rules.call source k) source c = .fail g)
    (hat : g.At (c.skip u) (wordHints u)) : ExprStuckAt source k c f := by
  have hlt := c.pos_lt_skip hne
  have hword : ∀ g', (identifier : PieParser Text).eval (rules.call source k) source c = .fail g' →
      g'.At (c.skip u) (wordHints u) := by
    intro g' hg'
    rw [hg] at hg'
    cases hg'
    exact hat
  have hvariable : ∀ g', variableName.eval (rules.call source k) source c = .fail g' →
      g'.At (c.skip u) (wordHints u) := by
    intro g' hg'
    have hname : Failure.At c [] ⟨c.pos, .ofDescription "name"⟩ :=
      ⟨rfl, Expectation.within_ofDescription _⟩
    rcases eval_varName_fail (eval_map_fail hg') with ⟨x, hx, rfl⟩ | ⟨⟨name, hname⟩, -⟩
    · exact (hword x hx).furthest (hname.upTo_of_reaches (Cursor.reaches_skip hr))
    · rw [eval_identifier_of_some _ _ hname] at hg
      cases hg
  refine ⟨c.skip u, wordHints u, .word (Or.inl rfl) hu hr,
    at_of_eval_expr h (Cursor.reaches_skip hr) (fun g hg => ?_) (fun g hg => (hword g hg).upTo)
      (fun g hg => (at_of_eval_compound hopen hg).upTo_of_pos_lt hlt)
      ⟨variableName, by simp, hvariable⟩,
    fun g hg => (hword g hg).upTo, fun g _ hg => hg.upTo_of_pos_lt hlt⟩
  rcases eval_tick_fail hg with ⟨-, hmark⟩ | ⟨v, s, -, hs, -⟩
  · exact hmark.upTo_of_pos_lt hlt
  · exact absurd (by rw [hs]; rfl) hquote

theorem slots_of_head (head : Head) : ∀ t ∈ head.shape.first, t ≠ .topLevel := by
  intro t ht
  cases head with
  | form f =>
      rw [List.eq_of_mem_replicate ht]
      decide
  | lambda => revert t; decide
  | quantifier q =>
      simp only [Head.shape, List.mem_cons, List.not_mem_nil, or_false] at ht
      rcases ht with rfl | rfl <;> decide
  | arrow => revert t; decide

section

variable (ih : CallsStuck source k)

include ih

theorem stuckAt_of_eval_innerExpr
    (h : (slot .expr).eval (rules.call source k) source c = .fail f) :
    StuckAt source .expr c f :=
  (ih c f (eval_map_fail h)).stuckAt

theorem stuckAt_of_eval_pair (h : (slot .pair).eval (rules.call source k) source c = .fail f) :
    StuckAt source .pair c f := by
  refine stuckAt_of_eval_list runsAs_pair .pair (by decide) (fun t ht c f hf => ?_) h
  obtain rfl | rfl : t = .name ∨ t = .expr := by simpa [Shape.pair] using ht
  · exact stuckAt_of_eval_name hf
  · exact stuckAt_of_eval_innerExpr ih hf

theorem stuckAt_of_eval_pairs (h : (slot .pairs).eval (rules.call source k) source c = .fail f) :
    StuckAt source .pairs c f := by
  refine stuckAt_of_eval_list runsAs_typedBinders .pairs (by decide) (fun t ht c f hf => ?_) h
  obtain rfl : t = .pair := by simpa [Shape.pairs] using ht
  exact stuckAt_of_eval_pair ih hf

/-- What is asked for within a list. -/
theorem stuckAt_of_eval_slot {s : Slot} (hs : s ≠ .topLevel)
    (h : (slot s).eval (rules.call source k) source c = .fail f) : StuckAt source s c f := by
  cases s with
  | expr => exact stuckAt_of_eval_innerExpr ih h
  | name => exact stuckAt_of_eval_name h
  | names => exact stuckAt_of_eval_names h
  | pair => exact stuckAt_of_eval_pair ih h
  | pairs => exact stuckAt_of_eval_pairs ih h
  | topLevel => exact absurd rfl hs

/-- The items after a keyword fail where the list is stuck. -/
theorem stuckAt_of_eval_lead {s : Slot} {lead : List (SExpr Location)} {σ : Shape} {c₂ : Cursor}
    {r : Text} (hopens : s.Opens lead σ) (hslots : ∀ t ∈ σ.first, t ≠ .topLevel)
    (hr : c.rest = '(' :: r) (hlead : SExpr.StandAfter source lead (c.skip ['(']) c₂)
    (h : (inside σ).eval (rules.call source k) source c₂ = .fail f) :
    ∃ e hints, Stuck source s c e hints ∧ f.At e hints ∧ c₂.Reaches e := by
  obtain ⟨c₁, hgap, hall⟩ := hlead
  obtain ⟨row, t, rest, xs, d, hfirst, hxs, hrow, ht⟩ := eval_items_fail h
  obtain ⟨e, hints, hstuck, hat⟩ :=
    stuckAt_of_eval_slot ih (hslots t (by rw [hfirst]; simp)) ht
  exact ⟨e, hints, .item hopens ⟨r, hr⟩ ⟨c₁, hgap, hall.append hxs⟩ hrow hfirst hstuck, hat,
    hxs.reaches.trans hstuck.reaches⟩

/-- What is applied and its arguments fail where the list is stuck, and an identifier or a keyword in
its place gets no further. -/
theorem stuck_of_eval_application {c₁ : Cursor} {r : Text} (hr : c.rest = '(' :: r)
    (hgap : (c.skip ['(']).Gap c₁)
    (h : (inside .application).eval (rules.call source k) source c₁ = .fail f) :
    ∃ e hints, Stuck source .expr c e hints ∧ f.At e hints ∧ c₁.Reaches e ∧
      ∀ g, (identifier : PieParser Text).eval (rules.call source k) source c₁ = .fail g →
        g.UpTo e hints := by
  obtain ⟨row, t, rest, xs, d, hfirst, hxs, hrow, ht⟩ := eval_items_fail h
  cases row with
  | nil =>
      have hnil : xs = [] := hrow
      subst hnil
      obtain rfl : d = c₁ := hxs
      obtain rfl : .expr = t := (List.cons.inj hfirst).1
      obtain ⟨e, hints, hstuck, hat, hword, -⟩ := ih d f (eval_map_fail ht)
      exact ⟨e, hints, .item .application ⟨r, hr⟩ (.of_gap hgap) hrow hfirst hstuck, hat,
        hstuck.reaches, hword⟩
  | cons s row =>
      have hitems := hrow
      obtain ⟨x, xs, rfl, -, -⟩ := hitems
      have hslots : ∀ t ∈ Shape.application.first, t ≠ .topLevel := by decide
      obtain ⟨e, hints, hstuck, hat⟩ :=
        stuckAt_of_eval_slot ih (hslots t (by rw [hfirst]; simp)) ht
      have hstands := hxs
      obtain ⟨m, c₂, hstands, hgap₂, hall⟩ := hstands
      have hlt : c₁.pos < e.pos := hstands.pos_lt (hgap₂.reaches.trans
        (hall.reaches.trans hstuck.reaches))
      exact ⟨e, hints, .item .application ⟨r, hr⟩ ⟨c₁, hgap, hxs⟩ hrow hfirst hstuck, hat,
        hxs.reaches.trans hstuck.reaches,
        fun g hg => (at_of_stands hstands hg).upTo_of_pos_lt hlt⟩

/-- What stands between the parentheses of an expression fails where the expression is stuck, and an
identifier in its place gets no further. -/
theorem stuck_of_eval_compoundInside {c₁ : Cursor} {r : Text} (hr : c.rest = '(' :: r)
    (hgap : (c.skip ['(']).Gap c₁)
    (h : compoundInside.eval (rules.call source k) source c₁ = .fail f) :
    ∃ e hints, Stuck source .expr c e hints ∧ f.At e hints ∧ c₁.Reaches e ∧
      ∀ g, (identifier : PieParser Text).eval (rules.call source k) source c₁ = .fail g →
        g.UpTo e hints := by
  obtain ⟨g₁, g₂, hdispatch, happ, rfl⟩ := eval_orElse_fail h
  rcases eval_bind_fail hdispatch with htable | ⟨entry, c₂, htable, hbody⟩
  · -- No keyword comes first, so the application decides.
    obtain ⟨e, hints, hstuck, hat, hreach, hword⟩ := stuck_of_eval_application ih hr hgap happ
    exact ⟨e, hints, hstuck,
      Failure.At.furthest_right (upTo_of_eval_keywordTable hreach hword htable) hat, hreach, hword⟩
  · -- After a keyword its form decides, since the application rejects the keyword.
    obtain ⟨name, hword, hlookup, hloc, hskip⟩ := eval_keywordTable_ok htable
    obtain ⟨hreserved, hconstant⟩ := reserved_of_lookup_head hlookup
    have hlead : SExpr.StandAfter source [.word ⟨source, c₁.pos, (c₁.skip name).pos⟩ name]
        (c.skip ['(']) c₂ :=
      ⟨c₁, hgap, c₁.skip name, c₂, ⟨hword, rfl, rfl⟩, gap_of_eval_skip hskip, rfl⟩
    obtain ⟨e, hints, hstuck, hat, hreach⟩ := stuckAt_of_eval_lead ih (.head hlookup)
      (slots_of_head entry.value) hr hlead hbody
    have hskipped := (gap_of_eval_skip hskip).reaches.trans hreach
    have hlt : c₁.pos < e.pos :=
      hskipped.pos_lt_of_skip (IsWord.of_wordPrefix hword).ne_nil
    obtain ⟨r', hr'⟩ := exists_of_wordPrefix hword
    refine ⟨e, hints, hstuck, hat.furthest
      ((at_of_eval_application hword hreserved hconstant happ).upTo_of_pos_lt hlt),
      (Cursor.reaches_skip hr').trans hskipped, fun g hg => ?_⟩
    rw [eval_identifier_of_some _ _ hword] at hg
    cases hg

omit ih in
/-- What was read between the parentheses of an expression starts with an item and fills a list. -/
theorem standAfter_of_eval_compoundInside {c₁ : Cursor} {u : Unit} (hgap : (c.skip ['(']).Gap c₁)
    (h : compoundInside.eval (rules.call source k) source c₁ = .ok u d) :
    ∃ lead xs σ, Slot.Opens .expr lead σ ∧
      SExpr.StandAfter source (lead ++ xs) (c.skip ['(']) d ∧ AcceptAll σ.first σ.more xs ∧
        ∃ (x : SExpr Location) (m : Cursor), x.Stands source c₁ m ∧ m.Reaches d := by
  rcases eval_orElse_ok h with hdispatch | happ
  · obtain ⟨entry, c₂, htable, hbody⟩ := eval_bind_ok hdispatch
    obtain ⟨name, hword, hlookup, hloc, hskip⟩ := eval_keywordTable_ok htable
    obtain ⟨xs, hxs, hall⟩ := acceptAll_of_eval_items hbody
    have hgap₂ := gap_of_eval_skip hskip
    exact ⟨[.word ⟨source, c₁.pos, (c₁.skip name).pos⟩ name], xs, _, .head hlookup,
      ⟨c₁, hgap, c₁.skip name, c₂, ⟨hword, rfl, rfl⟩, hgap₂, hxs⟩, hall,
      .word ⟨source, c₁.pos, (c₁.skip name).pos⟩ name, c₁.skip name, ⟨hword, rfl, rfl⟩,
      hgap₂.reaches.trans hxs.reaches⟩
  · obtain ⟨xs, hxs, hall⟩ := acceptAll_of_eval_items happ
    have hitems := hall
    obtain ⟨y, ys, rfl, -, -⟩ := hitems
    have hfirst := hxs
    obtain ⟨m, c₂, hy, hgap₂, hys⟩ := hfirst
    exact ⟨[], y :: ys, _, .application, ⟨c₁, hgap, hxs⟩, hall, y, m, hy,
      hgap₂.reaches.trans hys.reaches⟩

/-- A bracketed expression fails where it is stuck. -/
theorem stuck_of_eval_compound {r : Text} (hr : c.rest = '(' :: r)
    (h : compound.eval (rules.call source k) source c = .fail f) :
    ∃ c₁ e hints, skip.eval (rules.call source k) source (c.skip ['(']) = .ok () c₁ ∧
      Stuck source .expr c e hints ∧ f.At e hints ∧ c₁.Reaches e ∧
        ∀ g, (identifier : PieParser Text).eval (rules.call source k) source c₁ = .fail g →
          g.UpTo e hints := by
  rcases eval_parens_fail (runsAs_compound.eval_eq_fail h) with
    ⟨hhead, -⟩ | ⟨r', c₁, hr', hskip, hfail | ⟨u, d, hok, hat⟩⟩
  · exact absurd (by rw [hr]; rfl) hhead
  · obtain ⟨e, hints, hstuck, hat, hreach, hword⟩ :=
      stuck_of_eval_compoundInside ih hr (gap_of_eval_skip hskip) hfail
    exact ⟨c₁, e, hints, hskip, hstuck, hat, hreach, hword⟩
  · obtain ⟨lead, xs, σ, hopens, hxs, hall, x, m, hx, hreach⟩ :=
      standAfter_of_eval_compoundInside (gap_of_eval_skip hskip) hok
    refine ⟨c₁, d, _, hskip, .close hopens ⟨r, hr⟩ hxs hall, hat, hx.reaches.1.trans hreach,
      fun g hg => (at_of_stands hx hg).upTo_of_pos_lt (hx.pos_lt hreach)⟩

omit ih in
/-- After an opening parenthesis only the bracketed expressions get any further. -/
theorem at_of_eval_expr_open {r : Text} {e : Cursor} {hints : List Char} (hr : c.rest = '(' :: r)
    (hreach : (c.skip ['(']).Reaches e)
    (hcompound : ∀ g, compound.eval (rules.call source k) source c = .fail g → g.At e hints)
    (h : expr.eval (rules.call source k) source c = .fail f) : f.At e hints := by
  have hlt : c.pos < e.pos := hreach.pos_lt_of_skip (List.cons_ne_nil _ _)
  refine at_of_eval_expr h ((Cursor.reaches_skip (u := ['(']) hr).trans hreach) (fun g hg => ?_)
    (fun g hg => (at_of_eval_identifier hr (by decide) hg).upTo_of_pos_lt hlt)
    (fun g hg => (hcompound g hg).upTo) ⟨compound, by simp, hcompound⟩
  rcases eval_tick_fail hg with ⟨-, hat⟩ | ⟨u, s, -, hs, -⟩
  · exact hat.upTo_of_pos_lt hlt
  · rw [hr] at hs
    exact absurd (List.cons.inj hs).1 (by decide)

/-- An expression that opens a list fails where that is stuck. -/
theorem exprStuckAt_open {r : Text} (h : expr.eval (rules.call source k) source c = .fail f)
    (hr : c.rest = '(' :: r) {g : Failure}
    (hg : compound.eval (rules.call source k) source c = .fail g) : ExprStuckAt source k c f := by
  obtain ⟨c₁, e, hints, hskip, hstuck, hat, hreach, -⟩ := stuck_of_eval_compound ih hr hg
  have hopened := (gap_of_eval_skip hskip).reaches.trans hreach
  have hlt : c.pos < e.pos := hopened.pos_lt_of_skip (List.cons_ne_nil _ _)
  refine ⟨e, hints, hstuck, at_of_eval_expr_open hr hopened (fun g' hg' => ?_) h,
    fun g' hg' => (at_of_eval_identifier hr (by decide) hg').upTo_of_pos_lt hlt,
    fun g' hhead => absurd (by rw [hr]; rfl) hhead⟩
  rw [hg] at hg'
  cases hg'
  exact hat

omit ih in
/-- An expression that opens no list and is not quoted fails in its first word. -/
theorem exprStuckAt_plain (h : expr.eval (rules.call source k) source c = .fail f)
    (hopen : c.rest.head? ≠ some '(') (hquote : c.rest.head? ≠ some '\'') {g : Failure}
    (htick : tick.eval (rules.call source k) source c = .fail g) (hmark : g.At c ['\'']) :
    ExprStuckAt source k c f := by
  cases hword : wordPrefix c.rest with
  | some name =>
      have hnone : ∀ g, (identifier : PieParser Text).eval (rules.call source k) source c =
          .fail g → g.UpTo c Slot.expr.hints := by
        intro g hg
        rw [eval_identifier_of_some _ _ hword] at hg
        cases hg
      exact exprStuckAt_start h hopen htick hmark hnone
  | none =>
      obtain ⟨g', hg'⟩ := eval_identifier_of_none (rules.call source k) source hword
      obtain ⟨u, r, hu, hr, -, hat⟩ := eval_identifier_fail hg'
      have hall : ∀ g, (identifier : PieParser Text).eval (rules.call source k) source c =
          .fail g → g.At (c.skip u) (wordHints u) := by
        intro g hg
        rw [hg'] at hg
        cases hg
        exact hat
      by_cases hnil : u = []
      · subst hnil
        rw [Cursor.skip_nil] at hall
        exact exprStuckAt_start h hopen htick hmark fun g hg =>
          ((hall g hg).mono fun ch hch => by revert ch; decide).upTo
      · exact exprStuckAt_word h hu hnil hr hquote hopen hg' hat

omit ih in
/-- After an apostrophe the word that breaks off decides. -/
theorem exprStuckAt_quoted {u r : Text} (h : expr.eval (rules.call source k) source c = .fail f)
    (hu : Dots u) (hr : c.rest = '\'' :: (u ++ r)) {g : Failure}
    (hg : tick.eval (rules.call source k) source c = .fail g)
    (hat : g.At (c.skip ('\'' :: u)) (wordHints u)) : ExprStuckAt source k c f := by
  have hopen : c.rest.head? ≠ some '(' := by
    rw [hr]
    exact fun hhead => absurd (Option.some.inj hhead) (by decide)
  have hlt : c.pos < (c.skip ('\'' :: u)).pos := c.pos_lt_skip (List.cons_ne_nil _ _)
  have hword : ∀ g, (identifier : PieParser Text).eval (rules.call source k) source c = .fail g →
      g.UpTo (c.skip ('\'' :: u)) (wordHints u) :=
    fun g hg => (at_of_eval_identifier hr (by decide) hg).upTo_of_pos_lt hlt
  have htick : ∀ g, tick.eval (rules.call source k) source c = .fail g →
      g.At (c.skip ('\'' :: u)) (wordHints u) := by
    intro g' hg'
    rw [hg] at hg'
    cases hg'
    exact hat
  have hreach : c.Reaches (c.skip ('\'' :: u)) := Cursor.reaches_skip (u := '\'' :: u) hr
  exact ⟨c.skip ('\'' :: u), wordHints u, .quoted hu hr,
    at_of_eval_expr h hreach (fun g hg => (htick g hg).upTo) hword
      (fun g hg => (at_of_eval_compound hopen hg).upTo_of_pos_lt hlt) ⟨tick, by simp, htick⟩,
    hword, fun g _ hg => hg.upTo_of_pos_lt hlt⟩

/-- An expression fails where it is stuck. -/
theorem exprStuckAt_of_eval_expr (h : expr.eval (rules.call source k) source c = .fail f) :
    ExprStuckAt source k c f := by
  obtain ⟨f', hchoice, -⟩ := eval_describe_fail h
  have hfails := exists_fail_of_eval_choice hchoice
  by_cases hopen : c.rest.head? = some '('
  · obtain ⟨r, hr⟩ := List.head?_eq_some_iff.mp hopen
    obtain ⟨g, hg, -⟩ := hfails compound (by simp)
    exact exprStuckAt_open ih h hr hg
  · obtain ⟨g, hg, -⟩ := hfails tick (by simp)
    rcases eval_tick_fail hg with ⟨hquote, hmark⟩ | ⟨u, r, hu, hr, hat⟩
    · exact exprStuckAt_plain h hopen hquote hg hmark
    · exact exprStuckAt_quoted h hu hr hg hat

end

end Grammar

end PieSyntax
