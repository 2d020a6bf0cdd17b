import PieSyntax.Proofs.Meaning
import PieSyntax.Proofs.Stands

/-!
# What the grammar accepts

Whatever a production of the grammar has read stands in the text as S-expressions, and elaboration
makes of them what the production returned.  The productions are gone through one by one; calls of
the expression production are taken care of by induction on the ceiling.

## Main results

* `Grammar.stands_of_eval_expr` — an expression that was read.
* `Grammar.stands_of_eval_topLevel` — a top-level form that was read.
* `Grammar.standAll_of_eval_program` — a program that was read.
-/

namespace PieSyntax

namespace Grammar

variable {source : String} {k : Nat} {c d : Cursor}

/-- An expression stands at `c`, and trivia between its end and `d`. -/
def ReadsTo (source : String) (c : Cursor) (e : Expr) (d : Cursor) : Prop :=
  ∃ (x : SExpr Location) (m : Cursor), x.Stands source c m ∧ elaborate id x = some e ∧ m.Gap d

/-- Calls of the expression production return what stands there. -/
def CallsSound (source : String) (k : Nat) : Prop :=
  ∀ c e d, innerExpr.eval (rules.call source k) source c = .ok e d → ReadsTo source c e d

/-! ## Names -/

theorem stands_of_eval_varName {x : Located Text}
    (h : varName.eval (rules.call source k) source c = .ok x d) :
    ∃ m, (SExpr.word x.loc x.value).Stands source c m ∧ isFreeName x.value = true ∧
      skip.eval (rules.call source k) source m = .ok () d := by
  obtain ⟨htoken, hfree⟩ := Parser.eval_guard_ok (Parser.eval_describe_ok h)
  obtain ⟨hword, hloc, hskip⟩ := eval_lexeme_identifier_ok htoken
  exact ⟨c.skip x.value, ⟨hword, rfl, hloc⟩, hfree, hskip⟩

theorem elaborateName_of_isFreeName {x : Located Text} (h : isFreeName x.value = true) :
    elaborateName id (.word x.loc x.value) = some x := by
  rw [elaborateName, if_pos h]
  rfl

theorem standAll_of_rounds_binder {bs : List Binder}
    (h : Parser.Rounds ((varName.map fun token => (⟨token.loc, token.value⟩ : Binder)).eval
      (rules.call source k) source) c bs d) :
    ∃ xs, SExpr.StandAll source xs c d ∧ elaborateNames id xs = some bs := by
  induction h with
  | @done c f h => exact ⟨[], rfl, rfl⟩
  | next h hne hrest ih =>
      obtain ⟨token, htoken, rfl⟩ := Parser.eval_map_ok h
      obtain ⟨m, hstands, hfree, hskip⟩ := stands_of_eval_varName htoken
      obtain ⟨xs, hxs, hmean⟩ := ih
      refine ⟨.word token.loc token.value :: xs, ⟨m, _, hstands, gap_of_eval_skip hskip, hxs⟩, ?_⟩
      rw [elaborateNames, elaborateName_of_isFreeName hfree, hmean]
      rfl

theorem stands_of_eval_binders {bs : List Binder}
    (h : binders.eval (rules.call source k) source c = .ok bs d) :
    ∃ x m, x.Stands source c m ∧ elaborateBinders id x = some bs ∧ bs.isEmpty = false ∧
      m.Gap d := by
  obtain ⟨c₁, e, hr, hopen, hnames, hr', hclose⟩ := eval_parens_ok h
  obtain ⟨b, bs', c₂, rfl, hfirst, hrest⟩ :=
    Parser.eval_many1_ok (rules.call_reaches source k) hnames
  obtain ⟨token, htoken, rfl⟩ := Parser.eval_map_ok hfirst
  obtain ⟨m, hstands, hfree, hskip⟩ := stands_of_eval_varName htoken
  obtain ⟨xs, hxs, hmean⟩ := standAll_of_rounds_binder hrest
  refine ⟨.list ⟨source, c.pos, (e.skip [')']).pos⟩ (.word token.loc token.value :: xs),
    e.skip [')'], ?_, ?_, rfl, gap_of_eval_skip hclose⟩
  · exact ⟨c₁, e, hr, gap_of_eval_skip hopen,
      ⟨m, c₂, hstands, gap_of_eval_skip hskip, hxs⟩, hr', rfl, rfl⟩
  · rw [elaborateBinders, elaborateNames, elaborateName_of_isFreeName hfree, hmean]
    rfl

/-! ## Lists of expressions -/

section

variable (ih : CallsSound source k)

include ih

theorem standAll_of_rounds {es : List Expr}
    (h : Parser.Rounds (innerExpr.eval (rules.call source k) source) c es d) :
    ∃ xs, SExpr.StandAll source xs c d ∧ elaborateAll id xs = some es := by
  induction h with
  | @done c f h => exact ⟨[], rfl, rfl⟩
  | @next c c₁ d e es h hne hrest ihr =>
      obtain ⟨x, m, hx, hmean, hgap⟩ := ih _ _ _ h
      obtain ⟨xs, hxs, hmeans⟩ := ihr
      refine ⟨x :: xs, ⟨m, c₁, hx, hgap, hxs⟩, ?_⟩
      rw [elaborateAll, hmean, hmeans]
      rfl

theorem standAll_of_eval_many1 {es : List Expr}
    (h : innerExpr.many1.eval (rules.call source k) source c = .ok es d) :
    ∃ xs, SExpr.StandAll source xs c d ∧ elaborateAll id xs = some es ∧ es.isEmpty = false := by
  obtain ⟨e, es', c₁, rfl, hfirst, hrest⟩ :=
    Parser.eval_many1_ok (rules.call_reaches source k) h
  obtain ⟨x, m, hx, hmean, hgap⟩ := ih _ _ _ hfirst
  obtain ⟨xs, hxs, hmeans⟩ := standAll_of_rounds ih hrest
  refine ⟨x :: xs, ⟨m, c₁, hx, hgap, hxs⟩, ?_, rfl⟩
  rw [elaborateAll, hmean, hmeans]
  rfl

theorem standAll_of_eval_arguments {n : Nat} {args : Arguments n}
    (h : (arguments n).eval (rules.call source k) source c = .ok args d) :
    ∃ xs, SExpr.StandAll source xs c d ∧ elaborateAll id xs = some args.toList := by
  induction n generalizing c with
  | zero =>
      cases h
      exact ⟨[], rfl, rfl⟩
  | succ n ihn =>
      obtain ⟨e, c₁, hfirst, hrest⟩ := Parser.eval_bind_ok h
      obtain ⟨rest, hargs, rfl⟩ := Parser.eval_map_ok hrest
      obtain ⟨x, m, hx, hmean, hgap⟩ := ih _ _ _ hfirst
      obtain ⟨xs, hxs, hmeans⟩ := ihn hargs
      refine ⟨x :: xs, ⟨m, c₁, hx, hgap, hxs⟩, ?_⟩
      rw [elaborateAll, hmean, hmeans, Arguments.toList]
      rfl

/-! ## Typed names -/

theorem stands_of_eval_pair {b : TypedBinder}
    (h : (parens skip typedBinder).eval (rules.call source k) source c = .ok b d) :
    ∃ x m, x.Stands source c m ∧ elaboratePair id x = some b ∧ m.Gap d := by
  obtain ⟨c₁, e, hr, hopen, hpair, hr', hclose⟩ := eval_parens_ok h
  unfold typedBinder at hpair
  rw [Parser.eval] at hpair
  obtain ⟨name, c₂, hname, htype⟩ := Parser.eval_bind_ok hpair
  obtain ⟨type, hexpr, rfl⟩ := Parser.eval_map_ok htype
  obtain ⟨m, hstands, hfree, hskip⟩ := stands_of_eval_varName hname
  obtain ⟨y, m', hy, hmean, hgap'⟩ := ih _ _ _ hexpr
  refine ⟨.list ⟨source, c.pos, (e.skip [')']).pos⟩ [.word name.loc name.value, y],
    e.skip [')'], ?_, ?_, gap_of_eval_skip hclose⟩
  · exact ⟨c₁, e, hr, gap_of_eval_skip hopen,
      ⟨m, c₂, hstands, gap_of_eval_skip hskip, ⟨m', e, hy, hgap', rfl⟩⟩, hr', rfl, rfl⟩
  · rw [elaboratePair, elaborateName_of_isFreeName hfree, hmean]
    rfl

theorem standAll_of_rounds_pair {bs : List TypedBinder}
    (h : Parser.Rounds ((parens skip typedBinder).eval (rules.call source k) source) c bs d) :
    ∃ xs, SExpr.StandAll source xs c d ∧ elaboratePairs id xs = some bs := by
  induction h with
  | @done c f h => exact ⟨[], rfl, rfl⟩
  | @next c c₁ d b bs h hne hrest ihr =>
      obtain ⟨x, m, hx, hmean, hgap⟩ := stands_of_eval_pair ih h
      obtain ⟨xs, hxs, hmeans⟩ := ihr
      refine ⟨x :: xs, ⟨m, c₁, hx, hgap, hxs⟩, ?_⟩
      rw [elaboratePairs, hmean, hmeans]
      rfl

theorem stands_of_eval_typedBinders {bs : List TypedBinder}
    (h : typedBinders.eval (rules.call source k) source c = .ok bs d) :
    ∃ x m, x.Stands source c m ∧ elaborateTypedBinders id x = some bs ∧ bs.isEmpty = false ∧
      m.Gap d := by
  obtain ⟨c₁, e, hr, hopen, hpairs, hr', hclose⟩ := eval_parens_ok h
  obtain ⟨b, bs', c₂, rfl, hfirst, hrest⟩ :=
    Parser.eval_many1_ok (rules.call_reaches source k) hpairs
  obtain ⟨x, m, hx, hmean, hgap⟩ := stands_of_eval_pair ih hfirst
  obtain ⟨xs, hxs, hmeans⟩ := standAll_of_rounds_pair ih hrest
  refine ⟨.list ⟨source, c.pos, (e.skip [')']).pos⟩ (x :: xs), e.skip [')'], ?_, ?_, rfl,
    gap_of_eval_skip hclose⟩
  · exact ⟨c₁, e, hr, gap_of_eval_skip hopen, ⟨m, c₂, hx, hgap, hxs⟩, hr', rfl, rfl⟩
  · rw [elaborateTypedBinders, elaboratePairs, hmean, hmeans]
    rfl

/-! ## Forms -/

/-- What follows a keyword makes, with any word that announces it, the node that was read. -/
theorem standAll_of_eval_headBody {h : Head} {node : Node}
    (hok : (headBody h).eval (rules.call source k) source c = .ok node d) :
    ∃ items, SExpr.StandAll source items c d ∧
      ∀ x : SExpr Location, x.head? = some h → elaborateList id (x :: items) = some node := by
  unfold headBody at hok
  rw [Parser.eval] at hok
  cases h with
  | form f =>
      obtain ⟨args, hargs, rfl⟩ := Parser.eval_map_ok hok
      obtain ⟨xs, hxs, hmean⟩ := standAll_of_eval_arguments ih hargs
      refine ⟨xs, hxs, fun x hx => ?_⟩
      rw [elaborateList_form id hx, hmean, Option.bind_some, formNode, Arguments.ofList_toList]
      rfl
  | lambda =>
      obtain ⟨bs, c₁, hbs, hrest⟩ := Parser.eval_bind_ok hok
      obtain ⟨body, hbody, rfl⟩ := Parser.eval_map_ok hrest
      obtain ⟨y, m, hy, hnames, hne, hgap⟩ := stands_of_eval_binders hbs
      obtain ⟨z, m', hz, hmean, hgap'⟩ := ih _ _ _ hbody
      refine ⟨[y, z], ⟨m, c₁, hy, hgap, ⟨m', d, hz, hgap', rfl⟩⟩, fun x hx => ?_⟩
      rw [elaborateList_lambda id hx, hnames, hmean, Option.bind_some, Option.bind_some,
        lambdaNode, hne]
      rfl
  | quantifier q =>
      obtain ⟨bs, c₁, hbs, hrest⟩ := Parser.eval_bind_ok hok
      obtain ⟨body, hbody, rfl⟩ := Parser.eval_map_ok hrest
      obtain ⟨y, m, hy, hpairs, hne, hgap⟩ := stands_of_eval_typedBinders ih hbs
      obtain ⟨z, m', hz, hmean, hgap'⟩ := ih _ _ _ hbody
      refine ⟨[y, z], ⟨m, c₁, hy, hgap, ⟨m', d, hz, hgap', rfl⟩⟩, fun x hx => ?_⟩
      rw [elaborateList_quantifier id hx, hpairs, hmean, Option.bind_some, Option.bind_some,
        quantifiedNode, hne]
      rfl
  | arrow =>
      obtain ⟨arg, c₁, harg, hrest⟩ := Parser.eval_bind_ok hok
      obtain ⟨rest, hmany, rfl⟩ := Parser.eval_map_ok hrest
      obtain ⟨y, m, hy, hmean, hgap⟩ := ih _ _ _ harg
      obtain ⟨ys, hys, hmeans, hne⟩ := standAll_of_eval_many1 ih hmany
      refine ⟨y :: ys, ⟨m, c₁, hy, hgap, hys⟩, fun x hx => ?_⟩
      rw [elaborateList_arrow id hx, elaborateAll, hmean, hmeans]
      cases rest with
      | nil => cases hne
      | cons e es => rfl

theorem standAll_of_eval_application {node : Node}
    (h : application.eval (rules.call source k) source c = .ok node d) :
    ∃ items, SExpr.StandAll source items c d ∧ elaborateList id items = some node := by
  unfold application at h
  rw [Parser.eval] at h
  obtain ⟨head, c₁, hhead, hrest⟩ := Parser.eval_bind_ok h
  obtain ⟨args, hmany, rfl⟩ := Parser.eval_map_ok hrest
  obtain ⟨x, m, hx, hmean, hgap⟩ := ih _ _ _ hhead
  obtain ⟨xs, hxs, hmeans, hne⟩ := standAll_of_eval_many1 ih hmany
  refine ⟨x :: xs, ⟨m, c₁, hx, hgap, hxs⟩, ?_⟩
  rw [elaborateList_application id (head?_eq_none_of_elaborate hmean).1, hmean, hmeans,
    Option.bind_some, Option.bind_some, appNode, hne]
  rfl

theorem standAll_of_eval_dispatch {node : Node}
    (h : (dispatch headTable headBody).eval (rules.call source k) source c = .ok node d) :
    ∃ items, SExpr.StandAll source items c d ∧ elaborateList id items = some node := by
  obtain ⟨entry, c₁, htable, hbody⟩ := Parser.eval_bind_ok h
  obtain ⟨name, hword, hlookup, hloc, hskip⟩ := eval_keywordTable_ok htable
  obtain ⟨items, hitems, hmean⟩ := standAll_of_eval_headBody ih hbody
  exact ⟨.word ⟨source, c.pos, (c.skip name).pos⟩ name :: items,
    ⟨c.skip name, c₁, ⟨hword, rfl, rfl⟩, gap_of_eval_skip hskip, hitems⟩, hmean _ hlookup⟩

theorem stands_of_eval_compound {e : Expr}
    (h : compound.eval (rules.call source k) source c = .ok e d) :
    ∃ x m, x.Stands source c m ∧ elaborate id x = some e ∧
      skip.eval (rules.call source k) source m = .ok () d := by
  obtain ⟨c₁, d₁, hr, hopen, hinside, hr', hloc, hclose⟩ := eval_parensLocated_ok h
  have hitems : ∃ items, SExpr.StandAll source items c₁ d₁ ∧
      elaborateList id items = some e.value := by
    rcases Parser.eval_orElse_ok hinside with hinside | hinside
    · exact standAll_of_eval_dispatch ih hinside
    · exact standAll_of_eval_application ih hinside
  obtain ⟨items, hall, hmean⟩ := hitems
  refine ⟨.list e.loc items, d₁.skip [')'],
    ⟨c₁, d₁, hr, gap_of_eval_skip hopen, hall, hr', rfl, hloc⟩, ?_, hclose⟩
  rw [elaborate, hmean]
  rfl

end

/-! ## Expressions -/

theorem stands_of_eval_tick {e : Expr} (h : tick.eval (rules.call source k) source c = .ok e d) :
    ∃ x m, x.Stands source c m ∧ elaborate id x = some e ∧
      skip.eval (rules.call source k) source m = .ok () d := by
  obtain ⟨token, htoken, rfl⟩ := Parser.eval_map_ok h
  obtain ⟨m, hquoted, hloc, hskip⟩ := eval_lexeme_ok htoken
  obtain ⟨mark, c₁, hmark, hword⟩ := Parser.eval_andThen_ok hquoted
  obtain ⟨-, ⟨r, hr⟩, rfl⟩ := eval_char_ok _ _ hmark
  obtain ⟨hpre, rfl⟩ := eval_identifier_ok hword
  rw [Cursor.rest_skip (u := ['\'']) (r := r) hr] at hpre
  rw [Cursor.skip_skip, List.singleton_append] at hloc hskip
  exact ⟨.quoted token.loc token.value, c.skip ('\'' :: token.value),
    ⟨r, hr, hpre, rfl, hloc⟩, rfl, hskip⟩

theorem stands_of_eval_variableName {e : Expr}
    (h : variableName.eval (rules.call source k) source c = .ok e d) :
    ∃ x m, x.Stands source c m ∧ elaborate id x = some e ∧
      skip.eval (rules.call source k) source m = .ok () d := by
  obtain ⟨token, htoken, rfl⟩ := Parser.eval_map_ok h
  obtain ⟨m, hstands, hfree, hskip⟩ := stands_of_eval_varName htoken
  refine ⟨.word token.loc token.value, m, hstands, ?_, hskip⟩
  rw [elaborate, elaborateWord, (lookup_eq_none_of_isFreeName hfree).1]
  simp [hfree, Located.map]

theorem stands_of_eval_constant {e : Expr}
    (h : constant.eval (rules.call source k) source c = .ok e d) :
    ∃ x m, x.Stands source c m ∧ elaborate id x = some e ∧
      skip.eval (rules.call source k) source m = .ok () d := by
  obtain ⟨entry, htable, rfl⟩ := Parser.eval_map_ok h
  obtain ⟨name, hword, hlookup, hloc, hskip⟩ := eval_keywordTable_ok htable
  refine ⟨.word entry.loc name, c.skip name, ⟨hword, rfl, hloc⟩, ?_, hskip⟩
  rw [elaborate, elaborateWord, hlookup]
  rfl

theorem stands_of_eval_natLit {e : Expr}
    (h : natLit.eval (rules.call source k) source c = .ok e d) :
    ∃ x m, x.Stands source c m ∧ elaborate id x = some e ∧
      skip.eval (rules.call source k) source m = .ok () d := by
  obtain ⟨token, htoken, rfl⟩ := Parser.eval_map_ok h
  obtain ⟨run, hdigits, hvalue, hloc, hskip⟩ := eval_natural_ok htoken
  refine ⟨.numeral token.loc run, c.skip run, ⟨hdigits, rfl, hloc⟩, ?_, hskip⟩
  rw [elaborate, hvalue]
  rfl

/-- An expression that was read stands in the text, and the trivia after it were skipped. -/
theorem stands_of_eval_expr_of_calls (ih : CallsSound source k) {e : Expr}
    (h : expr.eval (rules.call source k) source c = .ok e d) :
    ∃ x m, x.Stands source c m ∧ elaborate id x = some e ∧
      skip.eval (rules.call source k) source m = .ok () d := by
  obtain ⟨p, hp, hok⟩ := Parser.eval_choice_ok (Parser.eval_describe_ok h)
  simp only [List.mem_cons, List.not_mem_nil, or_false] at hp
  rcases hp with rfl | rfl | rfl | rfl | rfl
  · exact stands_of_eval_tick hok
  · exact stands_of_eval_variableName hok
  · exact stands_of_eval_constant hok
  · exact stands_of_eval_natLit hok
  · exact stands_of_eval_compound ih hok

theorem callsSound (source : String) (k : Nat) : CallsSound source k := by
  induction k with
  | zero =>
      intro c e d h
      cases h
  | succ k ih =>
      intro c e d h
      obtain ⟨x, m, hx, hmean, hskip⟩ := stands_of_eval_expr_of_calls ih h
      exact ⟨x, m, hx, hmean, gap_of_eval_skip hskip⟩

theorem stands_of_eval_expr {e : Expr}
    (h : expr.eval (rules.call source k) source c = .ok e d) :
    ∃ x m, x.Stands source c m ∧ elaborate id x = some e ∧
      skip.eval (rules.call source k) source m = .ok () d :=
  stands_of_eval_expr_of_calls (callsSound source k) h

/-! ## Programs -/

theorem standAll_of_eval_commandBody {command : Command} {statement : Statement}
    (h : (commandBody command).eval (rules.call source k) source c = .ok statement d) :
    ∃ items, SExpr.StandAll source items c d ∧
      elaborateCommand id command items = some statement := by
  have ih := callsSound source k
  unfold commandBody at h
  rw [Parser.eval] at h
  cases command with
  | claim =>
      obtain ⟨name, c₁, hname, hrest⟩ := Parser.eval_bind_ok h
      obtain ⟨type, htype, rfl⟩ := Parser.eval_map_ok hrest
      obtain ⟨m, hstands, hfree, hskip⟩ := stands_of_eval_varName hname
      obtain ⟨y, m', hy, hmean, hgap'⟩ := ih _ _ _ htype
      refine ⟨[.word name.loc name.value, y],
        ⟨m, c₁, hstands, gap_of_eval_skip hskip, ⟨m', d, hy, hgap', rfl⟩⟩, ?_⟩
      rw [elaborateCommand, elaborateName_of_isFreeName hfree, hmean]
      rfl
  | define =>
      obtain ⟨name, c₁, hname, hrest⟩ := Parser.eval_bind_ok h
      obtain ⟨value, hvalue, rfl⟩ := Parser.eval_map_ok hrest
      obtain ⟨m, hstands, hfree, hskip⟩ := stands_of_eval_varName hname
      obtain ⟨y, m', hy, hmean, hgap'⟩ := ih _ _ _ hvalue
      refine ⟨[.word name.loc name.value, y],
        ⟨m, c₁, hstands, gap_of_eval_skip hskip, ⟨m', d, hy, hgap', rfl⟩⟩, ?_⟩
      rw [elaborateCommand, elaborateName_of_isFreeName hfree, hmean]
      rfl
  | checkSame =>
      obtain ⟨type, c₁, htype, hrest⟩ := Parser.eval_bind_ok h
      obtain ⟨left, c₂, hleft, hrest'⟩ := Parser.eval_bind_ok hrest
      obtain ⟨right, hright, rfl⟩ := Parser.eval_map_ok hrest'
      obtain ⟨x, m, hx, hmean, hgap⟩ := ih _ _ _ htype
      obtain ⟨y, m', hy, hmean', hgap'⟩ := ih _ _ _ hleft
      obtain ⟨z, m'', hz, hmean'', hgap''⟩ := ih _ _ _ hright
      refine ⟨[x, y, z],
        ⟨m, c₁, hx, hgap, ⟨m', c₂, hy, hgap', ⟨m'', d, hz, hgap'', rfl⟩⟩⟩, ?_⟩
      rw [elaborateCommand, hmean, hmean', hmean'']
      rfl

theorem stands_of_eval_topLevel {t : TopLevel}
    (h : topLevel.eval (rules.call source k) source c = .ok t d) :
    ∃ x m, x.Stands source c m ∧ elaborateTopLevel id x = some t ∧
      skip.eval (rules.call source k) source m = .ok () d := by
  rcases Parser.eval_orElse_ok h with h | h
  · obtain ⟨c₁, d₁, hr, hopen, hinside, hr', hloc, hclose⟩ := eval_parensLocated_ok h
    obtain ⟨entry, c₂, htable, hbody⟩ := Parser.eval_bind_ok hinside
    obtain ⟨name, hword, hlookup, hloc', hskip⟩ := eval_keywordTable_ok htable
    obtain ⟨items, hitems, hmean⟩ := standAll_of_eval_commandBody hbody
    refine ⟨.list t.loc (.word ⟨source, c₁.pos, (c₁.skip name).pos⟩ name :: items),
      d₁.skip [')'], ?_, ?_, hclose⟩
    · exact ⟨c₁, d₁, hr, gap_of_eval_skip hopen, ⟨c₁.skip name, c₂, ⟨hword, rfl, rfl⟩,
        gap_of_eval_skip hskip, hitems⟩, hr', rfl, hloc⟩
    · rw [elaborateTopLevel, SExpr.asCommand?, SExpr.command?, hlookup]
      simp only [Option.map_some, hmean]
      rfl
  · obtain ⟨e, hexpr, rfl⟩ := Parser.eval_map_ok h
    obtain ⟨x, m, hx, hmean, hskip⟩ := stands_of_eval_expr hexpr
    refine ⟨x, m, hx, ?_, hskip⟩
    rw [elaborateTopLevel, asCommand?_eq_none_of_elaborate hmean, hmean]
    rfl

/-- The forms of a program stand one after the other up to the end of the text. -/
theorem standAll_of_eval_manyTill {ts : List TopLevel}
    (h : (topLevel.manyTill .eof).eval (rules.call source k) source c = .ok ts d) :
    ∃ xs, SExpr.StandAll source xs c d ∧ elaborateProgram id xs = some ts ∧ d.rest = [] := by
  have hrounds := Parser.eval_manyTill_ok (rules.call_reaches source k) h
  clear h
  induction hrounds with
  | @done c d u h =>
      rw [Parser.eval] at h
      by_cases hend : c.atEnd = true
      · rw [if_pos hend] at h
        cases h
        exact ⟨[], rfl, rfl, List.isEmpty_iff.mp hend⟩
      · rw [if_neg hend] at h
        cases h
  | @next c c₁ d t ts h hne hrest ih =>
      obtain ⟨xs, hxs, hmeans, hnil⟩ := ih
      obtain ⟨x, m, hx, hmean, hskip⟩ := stands_of_eval_topLevel h
      refine ⟨x :: xs, ⟨m, c₁, hx, gap_of_eval_skip hskip, hxs⟩, ?_, hnil⟩
      rw [elaborateProgram, hmean, hmeans]
      rfl

/-- A program that was read is its first line, trivia and forms. -/
theorem standAll_of_eval_program {ts : List TopLevel}
    (h : program.eval (rules.call source k) source c = .ok ts d) :
    ∃ xs c₁ r, c.rest = header ++ r ∧ (c.skip header).Gap c₁ ∧ SExpr.StandAll source xs c₁ d ∧
      elaborateProgram id xs = some ts ∧ d.rest = [] := by
  obtain ⟨u, c₁, hlang, hforms⟩ := Parser.eval_andThen_ok h
  obtain ⟨s, c₀, htext, htrivia⟩ := Parser.eval_andThen_ok hlang
  obtain ⟨xs, hxs, hmean, hnil⟩ := standAll_of_eval_manyTill hforms
  by_cases hpre : header <+: c.rest
  · rw [eval_text_of_isPrefix _ _ hpre, Outcome.ok.injEq] at htext
    obtain ⟨-, rfl⟩ := htext
    obtain ⟨r, hr⟩ := hpre
    exact ⟨xs, c₁, r, hr.symm, gap_of_eval_trivia htrivia, hxs, hmean, hnil⟩
  · obtain ⟨f, hf⟩ := eval_text_of_not_isPrefix (rules.call source k) source hpre
    rw [hf] at htext
    cases htext

end Grammar

end PieSyntax
