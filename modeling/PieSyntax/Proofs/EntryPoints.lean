import PieSyntax.Proofs.Sessions
import PieSyntax.Proofs.Translation

/-!
# The entry points agree

A program is its first line and then a text that could have been read by itself, as a session of
forms one at a time, or, when it is one expression, as that expression.  The three ways into the
grammar give the same trees and the same errors, at places that are moved to where the first line
ends.

## Main results

* `parseSource_agrees` — a program and a session on the text after the first line.
* `message_eq` — the message of an error does not depend on where the text stands.
* `entry_points_agree` — programs, sessions and expressions.
-/

namespace PieSyntax

variable {ceiling : Nat}

/-- The position after the first line. -/
def headerEnd : Position := Position.start.advance Grammar.header

/-- The cursor after the first line of a program. -/
def afterHeader (b : Text) : Cursor := (Cursor.start (Grammar.header ++ b)).skip Grammar.header

theorem afterHeader_rest (b : Text) : (afterHeader b).rest = b := Cursor.rest_skip rfl

variable {source : String} {b : Text}

/-! ## Programs and sessions -/

/-- After its first line a program is read as a text without one. -/
theorem run_program (source : String) (b : Text) :
    Grammar.rules.run ceiling source Grammar.program (.start (Grammar.header ++ b)) =
      Grammar.rules.run ceiling source Grammar.forms (afterHeader b) := by
  have hheader : (Parser.text Grammar.header : PieParser Text).eval
      (Grammar.rules.call source ceiling) source (.start (Grammar.header ++ b)) =
        .ok Grammar.header (afterHeader b) :=
    eval_text_of_isPrefix _ _ ⟨b, rfl⟩
  show ((((Parser.text Grammar.header : PieParser Text).eval
    (Grammar.rules.call source ceiling) source (.start (Grammar.header ++ b))).andThen
      fun _ c => Grammar.trivia.eval (Grammar.rules.call source ceiling) source c).andThen
        fun _ c => (Grammar.topLevel.manyTill .eof).eval
          (Grammar.rules.call source ceiling) source c) = _
  rw [hheader, Outcome.andThen_ok]
  rfl

theorem forms_translated (source : String) (ceiling : Nat) (b : Text) :
    Outcome.Related (Tracking.translation (.start b) (afterHeader b))
      (List.Forall₂ fun t t' => t' = relocateTopLevel (.movedTo headerEnd) t)
      (Grammar.rules.run ceiling source Grammar.forms (.start b))
      (Grammar.rules.run ceiling source Grammar.forms (afterHeader b)) :=
  Grammar.run_translated
    (Grammar.spacing_alike.andThen (.manyTill Grammar.topLevel_alike_translation .eof))
    ceiling source (Tracking.translation_start (afterHeader_rest b))

/-- The forms of a program are those of the text after its first line. -/
theorem parseSource_eq_ok_iff_forms {ts : List TopLevel} :
    parseSource source (Grammar.header ++ b) ceiling = .ok ts ↔
      ∃ ts' d, Grammar.rules.run ceiling source Grammar.forms (.start b) = .ok ts' d ∧
        ts = ts'.map (relocateTopLevel (.movedTo headerEnd)) := by
  have hrel := forms_translated source ceiling b
  rw [parseSource_eq_ok_iff, run_program]
  constructor
  · rintro ⟨d, hd⟩
    rw [hd] at hrel
    generalize Grammar.rules.run ceiling source Grammar.forms (.start b) = o at hrel
    cases hrel with
    | ok hts hd => exact ⟨_, _, rfl, eq_map_of_forall₂ hts⟩
  · rintro ⟨ts', d, hd, rfl⟩
    rw [hd] at hrel
    generalize Grammar.rules.run ceiling source Grammar.forms (afterHeader b) = o at hrel
    cases hrel with
    | ok hts hd => exact ⟨_, by rw [eq_map_of_forall₂ hts]⟩

theorem forms_ne_tooDeep (hbelow : BelowCeiling (parseSource source (Grammar.header ++ b) ceiling)) :
    Grammar.rules.run ceiling source Grammar.forms (.start b) ≠ .interrupted .tooDeep := by
  intro hdeep
  have hrel := forms_translated source ceiling b
  rw [← run_program, hdeep] at hrel
  refine hbelow.parseSource ?_
  generalize Grammar.rules.run ceiling source Grammar.program
    (.start (Grammar.header ++ b)) = o at hrel
  cases hrel with
  | interrupted hw =>
      cases hw with
      | other why h => rfl

/-- A failure in a text, and the same one after the first line. -/
def MovedFailure (b : Text) (f f' : Failure) : Prop :=
  (Tracking.translation (.start b) (afterHeader b)).Fails f f'

/-- What is returned for a program with the text `b`, and how a session on `b` ends. -/
inductive Agree (source : String) (b : Text) :
    Except ReadError (List TopLevel) → FormSequence → Prop where
  | ok (ts : List TopLevel) :
    Agree source b (.ok (ts.map (relocateTopLevel (.movedTo headerEnd)))) ⟨ts, none⟩
  | report (ts : List TopLevel) {f f' : Failure} (h : MovedFailure b f f') :
    Agree source b (.error (.report ⟨source, f', some (Grammar.header ++ b), none⟩))
      ⟨ts, some (.report ⟨source, f, some b, none⟩)⟩
  | interrupted (ts : List TopLevel) (why why' : Interruption) :
    Agree source b (.error (.interrupted why')) ⟨ts, some (.interrupted why)⟩

theorem parseSource_of_fail {text : Text} {f : Failure}
    (h : Grammar.rules.run ceiling source Grammar.program (.start text) = .fail f) :
    parseSource source text ceiling = .error (.report ⟨source, f, some text, none⟩) := by
  rw [parseSource, readFrom, h]
  rfl

theorem parseSource_of_interrupted {text : Text} {why : Interruption} (hne : why ≠ .tooDeep)
    (h : Grammar.rules.run ceiling source Grammar.program (.start text) =
      .interrupted why) : parseSource source text ceiling = .error (.interrupted why) := by
  rw [parseSource, readFrom, h]
  cases why with
  | tooDeep => exact absurd rfl hne
  | stalled loop label pos => rfl
  | numeralTooLong e => rfl
  | sourceMismatch mismatch => rfl
  | refused reason => rfl

/-- A program is read as the session on the text after its first line goes. -/
theorem parseSource_agrees (hbelow : BelowCeiling (parseSource source (Grammar.header ++ b) ceiling)) :
    Agree source b (parseSource source (Grammar.header ++ b) ceiling) (iterForms source b ceiling) := by
  have hdeep := hbelow.parseSource
  have hends := iterForms_ends source b ceiling
  have hrel := forms_translated source ceiling b
  rw [← run_program] at hrel
  generalize ho : Grammar.rules.run ceiling source Grammar.forms (.start b) = o at hends hrel
  generalize ho' : Grammar.rules.run ceiling source Grammar.program
    (.start (Grammar.header ++ b)) = o' at hdeep hrel
  generalize iterForms source b ceiling = seq at hends
  cases hrel with
  | @ok ts ts' d d' hts hd =>
      rw [parseSource_eq_ok_iff.mpr ⟨d', ho'⟩, eq_map_of_forall₂ hts]
      cases hends with
      | ok => exact .ok ts
  | @fail f f' hf =>
      rw [parseSource_of_fail ho']
      cases hends with
      | fail pre => exact .report pre hf
  | @interrupted why why' hw =>
      have hne : why' ≠ .tooDeep := fun h => hdeep (by rw [h])
      rw [parseSource_of_interrupted hne ho']
      cases hends with
      | tooDeep pre c =>
          cases hw with
          | other why h => exact absurd rfl hne
      | interrupted pre why h => exact .interrupted pre why why'

/-- The end of a program is the end of the text after its first line, moved. -/
theorem advance_header_append (b : Text) : Position.start.advance (Grammar.header ++ b) =
    Position.translate Position.start headerEnd (Position.start.advance b) := by
  rw [Position.translate_advance headerEnd (Int.le_refl _), Position.translate_origin,
    Position.advance_append]
  rfl

/-- The message of an error does not depend on where the text stands. -/
theorem message_eq {f f' : Failure} (h : MovedFailure b f f') :
    (⟨source, f', some (Grammar.header ++ b), none⟩ : Report).message =
      (⟨source, f, some b, none⟩ : Report).message := by
  obtain ⟨⟨hpos, hline⟩, hexpectation⟩ := h
  have hbefore : (⟨source, f', some (Grammar.header ++ b), none⟩ : Report).beforeEnd =
      (⟨source, f, some b, none⟩ : Report).beforeEnd := by
    show decide (f'.pos < Position.start.advance (Grammar.header ++ b)) =
      decide (f.pos < Position.start.advance b)
    rw [decide_eq_decide, hpos, advance_header_append]
    exact (Position.translate_lt_iff headerEnd hline (Position.line_le_advance _ b)).symm
  unfold Report.message
  simp only [hbefore, hexpectation]

/-! ## Single expressions -/

/-- A command is not an expression. -/
theorem Grammar.ne_expr_of_eval_commandBody {k : Nat} {c d : Cursor} {command : Command}
    {statement : Statement} {e : Expr}
    (h : (commandBody command).eval (rules.call source k) source c = .ok statement d) :
    statement ≠ .expr e := by
  rintro rfl
  obtain ⟨items, -, hmean⟩ := standAll_of_eval_commandBody h
  cases elaborateCommand_eq_some hmean

/-- A form that is an expression was read as one. -/
theorem Grammar.eval_expr_of_eval_topLevel {k : Nat} {c d : Cursor} {t : TopLevel} {e : Expr}
    (h : topLevel.eval (rules.call source k) source c = .ok t d) (ht : t.value = .expr e) :
    t = ⟨e.loc, .expr e⟩ ∧ expr.eval (rules.call source k) source c = .ok e d := by
  rcases Parser.eval_orElse_ok h with h | h
  · obtain ⟨c₁, d₁, -, -, hinside, -⟩ := eval_parensLocated_ok h
    obtain ⟨entry, c₂, -, hbody⟩ := Parser.eval_bind_ok hinside
    exact absurd ht (ne_expr_of_eval_commandBody hbody)
  · obtain ⟨e', he', rfl⟩ := Parser.eval_map_ok h
    cases ht
    exact ⟨rfl, he'⟩

/-- A text that is read as one form, an expression, is read as that expression. -/
theorem parseExpression_of_forms {t : TopLevel} {e : Expr} {d : Cursor}
    (h : Grammar.rules.run ceiling source Grammar.forms (.start b) = .ok [t] d)
    (ht : t.value = .expr e) : parseExpression source b false ceiling = .ok e := by
  obtain ⟨u, c, htrivia, hforms⟩ := Parser.eval_andThen_ok h
  have hrounds := Parser.eval_manyTill_ok
    (Grammar.rules.call_reaches source ceiling) hforms
  cases hrounds with
  | @next c c₁ d t ts htop hne hrest =>
      obtain ⟨rfl, hexpr⟩ := Grammar.eval_expr_of_eval_topLevel htop ht
      cases hrest with
      | @done c d v hend =>
          refine parseExpression_eq_ok_iff_eval.mpr ⟨c, c₁, htrivia, hexpr, ?_⟩
          rw [Parser.eval] at hend
          by_cases hat : c₁.atEnd = true
          · exact List.isEmpty_iff.mp hat
          · rw [if_neg hat] at hend
            cases hend

/-- An expression is read as a program of one form, unless it is nested too deeply. -/
theorem forms_of_parseExpression {e : Expr} (h : parseExpression source b false ceiling = .ok e) :
    Grammar.rules.run ceiling source Grammar.forms (.start b) = .interrupted .tooDeep ∨
      ∃ d, Grammar.rules.run ceiling source Grammar.forms (.start b) =
        .ok [⟨e.loc, .expr e⟩] d := by
  obtain ⟨c, d, htrivia, hexpr, hd⟩ := parseExpression_eq_ok_iff_eval.mp h
  obtain ⟨x, m, hx, hmean, hskip⟩ := Grammar.stands_of_eval_expr hexpr
  have hstand : SExpr.StandAll source [x] c d := ⟨m, d, hx, Grammar.gap_of_eval_skip hskip, rfl⟩
  have hprogram : elaborateProgram id [x] = some [⟨e.loc, .expr e⟩] := by
    rw [elaborateProgram, elaborateTopLevel, asCommand?_eq_none_of_elaborate hmean, hmean]
    rfl
  have hmany : Parser.Returns (Grammar.rules.call source ceiling) source (.empty True)
      (Grammar.topLevel.manyTill .eof) c [⟨e.loc, .expr e⟩] d :=
    Grammar.returns_manyTill (Grammar.skippable_of_cut trivial) hstand hprogram hd
      fun _ _ => Or.inl trivial
  have hforms : Grammar.rules.run ceiling source Grammar.forms (.start b) =
      (Grammar.topLevel.manyTill .eof).eval (Grammar.rules.call source ceiling) source c := by
    show ((Grammar.trivia.eval (Grammar.rules.call source ceiling) source
      (.start b)).andThen fun _ c => (Grammar.topLevel.manyTill .eof).eval
        (Grammar.rules.call source ceiling) source c) = _
    rw [htrivia, Outcome.andThen_ok]
  rw [hforms]
  rcases hmany.eval with ⟨-, hdeep⟩ | hok
  · exact Or.inl hdeep
  · exact Or.inr ⟨d, hok⟩

/-- A form that is an expression after it was moved was one before. -/
theorem exists_expr_of_relocate {f : Location → Location} {t : TopLevel} {loc : Location} {e : Expr}
    (h : relocateTopLevel f t = ⟨loc, .expr e⟩) :
    ∃ e', t.value = .expr e' ∧ e = relocateExpr f e' := by
  obtain ⟨place, statement⟩ := t
  simp only [relocateTopLevel, Located.mk.injEq] at h
  cases statement with
  | expr e' =>
      rw [Statement.relocate, Statement.expr.injEq] at h
      exact ⟨e', rfl, h.2.symm⟩
  | claim name type => cases h.2
  | define name value => cases h.2
  | checkSame type left right => cases h.2

/-! ## The three together -/

section

variable (hbelow : BelowCeiling (parseSource source (Grammar.header ++ b) ceiling))

include hbelow

/-- A program is returned when the session on its text comes to the end. -/
theorem parseSource_eq_ok_iff_iterForms {ts : List TopLevel} :
    parseSource source (Grammar.header ++ b) ceiling = .ok ts ↔
      ∃ ts', iterForms source b ceiling = ⟨ts', none⟩ ∧
        ts = ts'.map (relocateTopLevel (.movedTo headerEnd)) := by
  have hagree := parseSource_agrees hbelow
  generalize parseSource source (Grammar.header ++ b) ceiling = o at hagree
  generalize iterForms source b ceiling = seq at hagree
  cases hagree with
  | ok ts' =>
      constructor
      · intro h
        cases h
        exact ⟨ts', rfl, rfl⟩
      · rintro ⟨ts'', h, rfl⟩
        cases h
        rfl
  | report pre h => simp
  | interrupted pre why why' => simp

/-- A program is reported on when the session on its text comes to a report. -/
theorem exists_report_iff :
    (∃ r, parseSource source (Grammar.header ++ b) ceiling = .error (.report r)) ↔
      ∃ ts r, iterForms source b ceiling = ⟨ts, some (.report r)⟩ := by
  have hagree := parseSource_agrees hbelow
  generalize parseSource source (Grammar.header ++ b) ceiling = o at hagree
  generalize iterForms source b ceiling = seq at hagree
  cases hagree with
  | ok ts' => simp
  | report pre h => simp
  | interrupted pre why why' => simp

/-- The two reports say the same of the same place. -/
theorem report_eq {r r' : Report} {ts : List TopLevel}
    (hr : parseSource source (Grammar.header ++ b) ceiling = .error (.report r))
    (hr' : iterForms source b ceiling = ⟨ts, some (.report r')⟩) :
    r.failure.pos = Position.translate Position.start headerEnd r'.failure.pos ∧
      r.failure.expectation = r'.failure.expectation ∧ r.message = r'.message := by
  have hagree := parseSource_agrees hbelow
  rw [hr, hr'] at hagree
  cases hagree with
  | report pre h => exact ⟨h.1.1, h.2.symm, message_eq h⟩

/-- A program is one expression when its text is that expression. -/
theorem parseSource_eq_expr_iff {e : Expr} :
    parseSource source (Grammar.header ++ b) ceiling = .ok [⟨e.loc, .expr e⟩] ↔
      ∃ e', parseExpression source b false ceiling = .ok e' ∧
        e = relocateExpr (.movedTo headerEnd) e' := by
  rw [parseSource_eq_ok_iff_forms]
  constructor
  · rintro ⟨ts, d, hforms, hts⟩
    obtain ⟨t, rfl, ht⟩ := List.map_eq_singleton_iff.mp hts.symm
    obtain ⟨e', he', rfl⟩ := exists_expr_of_relocate ht
    exact ⟨e', parseExpression_of_forms hforms he', rfl⟩
  · rintro ⟨e', he', rfl⟩
    rcases forms_of_parseExpression he' with hdeep | ⟨d, hforms⟩
    · exact absurd hdeep (forms_ne_tooDeep hbelow)
    · refine ⟨_, d, hforms, ?_⟩
      rw [List.map_singleton, relocateTopLevel, Statement.relocate, relocateExpr_loc]

end

/-- Programs, sessions and single expressions agree on every text below the ceiling: they give the
same trees, at places moved to the end of the first line, and the same errors. -/
theorem entry_points_agree (source : String) (b : Text)
    (hbelow : BelowCeiling (parseSource source (Grammar.header ++ b) ceiling)) :
    (∀ ts, parseSource source (Grammar.header ++ b) ceiling = .ok ts ↔
      ∃ ts', iterForms source b ceiling = ⟨ts', none⟩ ∧
        ts = ts'.map (relocateTopLevel (.movedTo headerEnd))) ∧
    ((∃ r, parseSource source (Grammar.header ++ b) ceiling = .error (.report r)) ↔
      ∃ ts r, iterForms source b ceiling = ⟨ts, some (.report r)⟩) ∧
    (∀ r ts r', parseSource source (Grammar.header ++ b) ceiling = .error (.report r) →
      iterForms source b ceiling = ⟨ts, some (.report r')⟩ →
        r.failure.pos = Position.translate Position.start headerEnd r'.failure.pos ∧
          r.failure.expectation = r'.failure.expectation ∧ r.message = r'.message) ∧
    ∀ e, parseSource source (Grammar.header ++ b) ceiling = .ok [⟨e.loc, .expr e⟩] ↔
      ∃ e', parseExpression source b false ceiling = .ok e' ∧
        e = relocateExpr (.movedTo headerEnd) e' :=
  ⟨fun _ => parseSource_eq_ok_iff_iterForms hbelow, exists_report_iff hbelow,
    fun _ _ _ hr hr' => report_eq hbelow hr hr', fun _ => parseSource_eq_expr_iff hbelow⟩

/-- An expression on a line of its own. -/
def oneExpression : Text := "\n(the Atom 'x) ; done".toList

/-- An expression and one parenthesis too many. -/
def strayParenthesis : Text := "\n(car p))".toList

/-- The two texts, read in all ways. -/
theorem parse_short_expressions :
    (∃ e, parseExpression "short.pie" oneExpression false = .ok e ∧
      parseSource "short.pie" (Grammar.header ++ oneExpression) =
        .ok [⟨(relocateExpr (.movedTo headerEnd) e).loc,
          .expr (relocateExpr (.movedTo headerEnd) e)⟩]) ∧
    ∃ r ts r', parseSource "short.pie" (Grammar.header ++ strayParenthesis) = .error (.report r) ∧
      iterForms "short.pie" strayParenthesis = ⟨ts, some (.report r')⟩ ∧ r.message = r'.message := by
  constructor
  · obtain ⟨ts, hts⟩ : ∃ ts, parseSource "short.pie" (Grammar.header ++ oneExpression) = .ok ts :=
      exists_eq_ok_of_isSome (by decide +kernel)
    obtain ⟨e, he⟩ : ∃ e, parseExpression "short.pie" oneExpression false = .ok e :=
      exists_eq_ok_of_isSome (by decide +kernel)
    obtain ⟨-, -, -, hexpr⟩ :=
      entry_points_agree "short.pie" oneExpression (hts ▸ BelowCeiling.ok ts)
    exact ⟨e, he, (hexpr _).mpr ⟨e, he, rfl⟩⟩
  · obtain ⟨hbelow, r, hr⟩ := exists_eq_report_of_isPlainReport
      (o := parseSource "short.pie" (Grammar.header ++ strayParenthesis)) (by decide +kernel)
    obtain ⟨-, hreports, hsame, -⟩ := entry_points_agree "short.pie" strayParenthesis hbelow
    obtain ⟨ts, r', hr'⟩ := hreports.mp ⟨r, hr⟩
    exact ⟨r, ts, r', hr, hr', (hsame r ts r' hr hr').2.2⟩

end PieSyntax
