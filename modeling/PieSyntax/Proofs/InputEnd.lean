import PieSyntax.Proofs.Productions
import PieSyntax.Proofs.Progress

/-!
# Input that ran out, and input that is left over

Both are reported with the payload that the input ended, and a report says which of the two it was by
comparing its place with the end of the text.  That this is right needs an argument, because whatever
reads a character can fail with this payload, and so can the parser that looks for the end.

`RunsOutAtEnd p` says that `p` fails with this payload at the end of the text only.  It holds of all
that the grammar is made of.  Trivia look for the end of the text as well, after a comment, but trivia
do not fail.  A program looks for it before every form, and the failure of a form drowns that out.
There is one place left: the end that must follow an expression which stands alone.

## Main results

* `Grammar.runsOutAtEnd_expr`, `Grammar.runsOutAtEnd_program` — expressions and programs.
* `Grammar.eval_wholeExpression_fail` — where an expression is over and the text is not.
* `endOfInput_told_apart` — reports that the input ended.
-/

namespace PieSyntax

variable {ceiling : Nat}

/-! ## The end of a text -/

/-- The position of the end of the text that a cursor has still to read. -/
def Cursor.endPos (c : Cursor) : Position := c.pos.advance c.rest

theorem Cursor.endPos_of_nil {c : Cursor} (h : c.rest = []) : c.endPos = c.pos := by
  rw [endPos, h, Position.advance_nil]

theorem Cursor.pos_lt_endPos {c : Cursor} (h : c.rest ≠ []) : c.pos < c.endPos :=
  Position.lt_advance c.pos h

theorem Cursor.At.endPos_eq {text : Text} {c : Cursor} (h : c.At text) :
    c.endPos = Position.start.advance text := by
  obtain ⟨-, hrest, hpos⟩ := h
  rw [endPos, hrest, hpos, ← Position.advance_append, List.take_append_drop]

/-- Reading does not move the end. -/
theorem Cursor.Reaches.endPos_eq {c d : Cursor} (h : c.Reaches d) : d.endPos = c.endPos := by
  obtain ⟨u, hu⟩ := h
  rw [endPos, endPos, hu.rest, hu.pos, Position.advance_append]

/-! ## Failures for want of input -/

theorem Expectation.merge_eq_endOfInput {e e' : Expectation} (h : e.merge e' = .endOfInput) :
    e = .endOfInput ∨ e' = .endOfInput := by
  cases e with
  | generic => exact Or.inr ((generic_merge e').symm.trans h)
  | endOfInput => exact Or.inl rfl
  | expected literals descriptions => cases e' <;> cases h

/-- If the failure says that the input ended, it stands at `p`. -/
def Failure.RunsOutAt (p : Position) (f : Failure) : Prop :=
  f.expectation = .endOfInput → f.pos = p

namespace Failure

variable {f g : Failure} {p : Position} {e : Expectation}

theorem runsOutAt_of_ne (h : f.expectation ≠ .endOfInput) : f.RunsOutAt p :=
  fun hend => absurd hend h

theorem RunsOutAt.furthest (hf : f.RunsOutAt p) (hg : g.RunsOutAt p) :
    (f.furthest g).RunsOutAt p := by
  rcases Position.lt_trichotomy f.pos g.pos with hlt | heq | hgt
  · rw [furthest_of_lt hlt]
    exact hg
  · rw [furthest_of_pos_eq heq]
    intro hend
    rcases Expectation.merge_eq_endOfInput hend with hleft | hright
    · exact hf hleft
    · exact heq.trans (hg hright)
  · rw [furthest_of_gt hgt]
    exact hf

end Failure

/-! ## Parsers that look for no end -/

namespace Parser

variable {N : Type} {R : N → Type} {α β : Type}

/-- Where the parser fails because the input ended, it is at the end. -/
def RunsOutAtEnd (call : (n : N) → Cursor → Outcome (R n)) (source : String) (p : Parser N R α) :
    Prop :=
  ∀ c f, p.eval call source c = .fail f → f.RunsOutAt c.endPos

variable {call : (n : N) → Cursor → Outcome (R n)} {source : String} {p q : Parser N R α}

theorem runsOutAt_of_readChar {test : Char → Bool} {e : Expectation} {c : Cursor} {f : Failure}
    (he : e ≠ .endOfInput) (h : c.readChar test e = .fail f) : f.RunsOutAt c.endPos := by
  unfold Cursor.readChar at h
  split at h
  · rename_i hrest
    cases h
    exact fun _ => (Cursor.endPos_of_nil hrest).symm
  · split at h
    · cases h
    · cases h
      exact Failure.runsOutAt_of_ne he

theorem runsOutAtEnd_char (ch : Char) : RunsOutAtEnd call source (.char ch : Parser N R Char) :=
  fun _ _ h => runsOutAt_of_readChar (by rintro ⟨⟩) h

theorem runsOutAtEnd_satisfy (description : String) (test : Char → Bool) :
    RunsOutAtEnd call source (.satisfy description test : Parser N R Char) :=
  fun _ _ h => runsOutAt_of_readChar (by rintro ⟨⟩) h

theorem runsOutAt_of_readText {s : Text} {c : Cursor} {f : Failure} (h : c.readText s = .fail f) :
    f.RunsOutAt c.endPos := by
  induction s generalizing c with
  | nil => cases h
  | cons ch s ih =>
      rw [Cursor.readText] at h
      have hahead := c.readChar_aheadOf (· = ch) (.ofChar ch)
      cases hread : c.readChar (· = ch) (.ofChar ch) with
      | ok a d =>
          rw [hread] at h hahead
          rw [← Cursor.Reaches.endPos_eq hahead]
          exact ih h
      | fail g =>
          rw [hread] at h
          cases h
          exact runsOutAt_of_readChar (by rintro ⟨⟩) hread
      | interrupted why => rw [hread] at h; cases h

theorem runsOutAtEnd_text (s : Text) : RunsOutAtEnd call source (.text s : Parser N R Text) := by
  intro c f h
  rw [Parser.eval] at h
  cases hread : c.readText s with
  | ok a d => rw [hread] at h; cases h
  | fail g => rw [hread] at h; cases h; exact runsOutAt_of_readText hread
  | interrupted why => rw [hread] at h; cases h

theorem RunsOutAtEnd.refine {judge : α → Verdict β} (h : RunsOutAtEnd call source p)
    (hjudge : ∀ a, judge a ≠ .reject .endOfInput) : RunsOutAtEnd call source (p.refine judge) := by
  intro c f hfail
  rcases eval_refine_fail hfail with hp | ⟨a, d, e, -, hj, rfl⟩
  · exact h c f hp
  · exact Failure.runsOutAt_of_ne fun hend => hjudge a (hj.trans (congrArg _ hend))

theorem RunsOutAtEnd.orElse (hp : RunsOutAtEnd call source p) (hq : RunsOutAtEnd call source q) :
    RunsOutAtEnd call source (p.orElse q) := by
  intro c f hfail
  obtain ⟨g₁, g₂, h₁, h₂, rfl⟩ := eval_orElse_fail hfail
  exact (hp c g₁ h₁).furthest (hq c g₂ h₂)

theorem RunsOutAtEnd.choice {ps : List (Parser N R α)} (h : ∀ p ∈ ps, RunsOutAtEnd call source p) :
    RunsOutAtEnd call source (choice ps) :=
  choice_induction call source (motive := fun p => RunsOutAtEnd call source p)
    (fun _ _ heq hp c => heq ▸ hp c)
    (fun _ _ hfail => by cases hfail; exact Failure.runsOutAt_of_ne (by rintro ⟨⟩))
    (fun _ _ => RunsOutAtEnd.orElse) h

theorem RunsOutAtEnd.located (h : RunsOutAtEnd call source p) : RunsOutAtEnd call source p.located :=
  fun c f hfail => h c f (eval_located_fail hfail)

section

variable (hcall : ∀ n c, (call n c).AheadOf c)

include hcall

/-- What comes later is no nearer to the end. -/
theorem RunsOutAtEnd.bind {next : α → Parser N R β} (h : RunsOutAtEnd call source p)
    (hnext : ∀ a, RunsOutAtEnd call source (next a)) : RunsOutAtEnd call source (p.bind next) := by
  intro c f hfail
  rcases eval_bind_fail hfail with hp | ⟨a, d, hp, hrest⟩
  · exact h c f hp
  · rw [← (reaches_of_eval hcall hp).endPos_eq]
    exact hnext a d f hrest

theorem RunsOutAtEnd.andThen {r : Parser N R β} (h : RunsOutAtEnd call source p)
    (hr : RunsOutAtEnd call source r) : RunsOutAtEnd call source (p.andThen r) :=
  h.bind hcall fun _ => hr

end

end Parser

/-! ## The grammar -/

namespace Grammar

open PieSyntax.Parser

variable {source : String} {k : Nat} {α β : Type} {p : PieParser α}

theorem runsOutAtEnd_trivia : RunsOutAtEnd (rules.call source k) source trivia :=
  fun _ _ hfail => absurd hfail eval_trivia_ne_fail

/-- The productions look for no end, as long as those that they call do not. -/
theorem inherited_runsOutAtEnd
    (hcalls : ∀ n, RunsOutAtEnd (rules.call source k) source (.call n)) :
    Inherited (RunsOutAtEnd (rules.call source k) source) where
  pure _ := fun _ _ hfail => by cases hfail
  fail he := fun _ _ hfail => by
    cases hfail
    exact Failure.runsOutAt_of_ne he
  char _ := runsOutAtEnd_char _
  satisfy description _ _ := runsOutAtEnd_satisfy description _
  text _ := runsOutAtEnd_text _
  refine hp hjudge := hp.refine hjudge
  bind hp hnext := hp.bind (rules.call_reaches source k) hnext
  orElse _ hp hq := hp.orElse hq
  choice _ hall := .choice hall
  many _ := fun c f hfail => absurd hfail (eval_many_ne_fail (rules.call_reaches source k) _ c f)
  located hp := hp.located
  named _ hp := hp
  call n := hcalls n

theorem runsOutAtEnd_call (source : String) (k : Nat) (n : Production) :
    RunsOutAtEnd (rules.call source k) source (.call n) := by
  induction k generalizing n with
  | zero => exact fun _ _ hfail => by cases hfail
  | succ k ih =>
      have hinherited := inherited_runsOutAtEnd ih
      cases n with
      | spacing => exact runsOutAtEnd_trivia
      | datum => exact hinherited.anyDatum
      | expr => exact hinherited.expr

theorem runsOutAtEnd_expr : RunsOutAtEnd (rules.call source k) source expr :=
  (inherited_runsOutAtEnd (runsOutAtEnd_call source k)).expr

theorem runsOutAtEnd_topLevel : RunsOutAtEnd (rules.call source k) source topLevel :=
  (inherited_runsOutAtEnd (runsOutAtEnd_call source k)).topLevel

/-! ## The readers -/

/-- A program looks for the end before every form, but fails as the form does. -/
theorem runsOutAtEnd_forms :
    RunsOutAtEnd (rules.call source k) source (topLevel.manyTill (.eof : PieParser Unit)) := by
  have hcall := rules.call_reaches source k
  intro c f hfail
  induction c using Cursor.forward_induction with
  | step c ih =>
      obtain ⟨g, hstop, ⟨g', hform, rfl⟩ | ⟨t, d, hform, hlt, hrest⟩⟩ :=
        eval_manyTill_fail hcall hfail
      · rw [Parser.eval] at hstop
        split at hstop
        · cases hstop
        · cases hstop
          rw [furthest_of_eval_topLevel hform]
          exact runsOutAtEnd_topLevel c g' hform
      · rw [← (reaches_of_eval hcall hform).endPos_eq]
        exact ih d hlt hrest

theorem runsOutAtEnd_program : RunsOutAtEnd (rules.call source k) source program := by
  have hcall := rules.call_reaches source k
  exact ((runsOutAtEnd_text _).andThen hcall runsOutAtEnd_trivia).andThen hcall runsOutAtEnd_forms

theorem runsOutAtEnd_leadingExpression :
    RunsOutAtEnd (rules.call source k) source (trivia.andThen expr) :=
  runsOutAtEnd_trivia.andThen (rules.call_reaches source k) runsOutAtEnd_expr

/-- An expression that must be followed by the end of the text fails within, or where the expression
is over and the text is not. -/
theorem eval_wholeExpression_fail {c : Cursor} {f : Failure}
    (h : (expressionParser false).eval (rules.call source k) source c = .fail f) :
    (trivia.andThen expr).eval (rules.call source k) source c = .fail f ∨
      ∃ e d, (trivia.andThen expr).eval (rules.call source k) source c = .ok e d ∧ d.rest ≠ [] ∧
        f = ⟨d.pos, .endOfInput⟩ := by
  rcases eval_followedBy_fail h with hexpr | ⟨e, d, hexpr, hend⟩
  · exact Or.inl hexpr
  · rw [Parser.eval] at hend
    split at hend
    · cases hend
    · rename_i hne
      cases hend
      exact Or.inr ⟨e, d, hexpr, fun hnil => hne (List.isEmpty_iff.mpr hnil), rfl⟩

/-- An expression with something after it is rejected there. -/
theorem eval_wholeExpression_of_rest {c d : Cursor} {e : Expr}
    (h : (trivia.andThen expr).eval (rules.call source k) source c = .ok e d) (hne : d.rest ≠ []) :
    (expressionParser false).eval (rules.call source k) source c =
      .fail ⟨d.pos, .endOfInput⟩ := by
  have hend : ¬ d.atEnd = true := fun hat => hne (List.isEmpty_iff.mp hat)
  show (((trivia.andThen expr).eval (rules.call source k) source c).andThen fun e d =>
    ((Parser.eof : PieParser Unit).eval (rules.call source k) source d).andThen fun _ d =>
      .ok e d) = _
  rw [h, Outcome.andThen_ok, Parser.eval, if_neg hend]
  rfl

end Grammar

/-! ## Reports -/

/-- The report says that the input ended, at the end of the text. -/
def Report.RunsOut (text : Text) (r : Report) : Prop :=
  r.failure.pos = Position.start.advance text ∧ r.message = "unexpected end of input"

/-- The report says that the input should have ended, before the end of the text. -/
def Report.LeavesOver (text : Text) (r : Report) : Prop :=
  r.failure.pos < Position.start.advance text ∧ r.message = "expected end of input"

variable {source : String} {text : Text} {c : Cursor} {r : Report}

/-- The message goes by the place. -/
theorem Report.message_of_endOfInput (htext : r.text = some text) (hdetail : r.detail = none)
    (hend : r.failure.expectation = .endOfInput) :
    r.message = if r.failure.pos < Position.start.advance text then "expected end of input"
      else "unexpected end of input" := by
  simp only [message, hdetail, hend, beforeEnd, htext, decide_eq_true_eq]
  rfl

theorem Report.runsOut_of_pos (htext : r.text = some text) (hdetail : r.detail = none)
    (hend : r.failure.expectation = .endOfInput)
    (hpos : r.failure.pos = Position.start.advance text) : r.RunsOut text := by
  refine ⟨hpos, ?_⟩
  rw [message_of_endOfInput htext hdetail hend, hpos, if_neg (Position.lt_irrefl _)]

theorem Report.leavesOver_of_pos (htext : r.text = some text) (hdetail : r.detail = none)
    (hend : r.failure.expectation = .endOfInput)
    (hpos : r.failure.pos < Position.start.advance text) : r.LeavesOver text := by
  refine ⟨hpos, ?_⟩
  rw [message_of_endOfInput htext hdetail hend, if_pos hpos]

/-- A report that the input ended is a failure of the run. -/
theorem run_of_endOfInput {α : Type} {p : PieParser α}
    (hread : readFrom source text c p ceiling = .error (.report r))
    (hend : r.failure.expectation = .endOfInput) :
    Grammar.rules.run ceiling source p c = .fail r.failure ∧ r.text = some text ∧
      r.detail = none := by
  rw [readFrom] at hread
  cases hrun : Grammar.rules.run ceiling source p c with
  | ok a d => rw [hrun] at hread; cases hread
  | fail f => rw [hrun] at hread; cases hread; exact ⟨rfl, rfl, rfl⟩
  | interrupted why =>
      rw [hrun] at hread
      cases why with
      | tooDeep => cases hread; cases hend
      | stalled loop label pos => cases hread
      | numeralTooLong e => cases hread
      | sourceMismatch mismatch => cases hread
      | refused reason => cases hread

/-- What is read by a parser that looks for no end runs out at the end of the text. -/
theorem runsOut_of_readFrom {α : Type} {p : PieParser α}
    (hp : Parser.RunsOutAtEnd (Grammar.rules.call source ceiling) source p) (hc : c.At text)
    (hread : readFrom source text c p ceiling = .error (.report r))
    (hend : r.failure.expectation = .endOfInput) : r.RunsOut text := by
  obtain ⟨hrun, htext, hdetail⟩ := run_of_endOfInput hread hend
  exact Report.runsOut_of_pos htext hdetail hend (hc.endPos_eq ▸ hp c r.failure hrun hend)

/-- What is left over after an expression that stands alone. -/
theorem leavesOver_iff {p : Position} :
    (∃ r, parseExpression source text false ceiling = .error (.report r) ∧
        r.failure.expectation = .endOfInput ∧ r.failure.pos = p ∧ r.LeavesOver text) ↔
      ∃ e d, Grammar.rules.run ceiling source (Grammar.trivia.andThen Grammar.expr)
        (.start text) = .ok e d ∧ d.rest ≠ [] ∧ d.pos = p := by
  have hstart := Cursor.start_at text
  constructor
  · rintro ⟨r, hread, hend, rfl, hlt, -⟩
    have hread' : readFrom source text (.start text) (expressionParser false) ceiling =
        .error (.report r) := (EntryPoint.read_eq_error_iff (e := .expression false)).mp hread
    obtain ⟨hrun, -, -⟩ := run_of_endOfInput hread' hend
    rcases Grammar.eval_wholeExpression_fail hrun with hexpr | ⟨e, d, hexpr, hne, hf⟩
    · have hpos := Grammar.runsOutAtEnd_leadingExpression _ _ hexpr hend
      rw [hpos, hstart.endPos_eq] at hlt
      exact absurd hlt (Position.lt_irrefl _)
    · exact ⟨e, d, hexpr, hne, by rw [hf]⟩
  · rintro ⟨e, d, hexpr, hne, rfl⟩
    have hrun : Grammar.rules.run ceiling source (EntryPoint.expression false).parser
        (.start text) = .fail ⟨d.pos, .endOfInput⟩ := Grammar.eval_wholeExpression_of_rest hexpr hne
    have hread := EntryPoint.read_of_fail hrun
    have hd := (Rules.reaches_of_run hexpr).at hstart
    have hlt : d.pos < Position.start.advance text := hd.endPos_eq ▸ Cursor.pos_lt_endPos hne
    exact ⟨_, hread, rfl, rfl, Report.leavesOver_of_pos rfl rfl rfl hlt⟩

/-- Reports that the input ended.  Each of them stands at the end of the text and says that the input
ran out, or stands before it and says that it should have ended.  The latter are those on an expression
that stands alone, where it has been read and the text goes on. -/
theorem endOfInput_told_apart (source : String) (text : Text) (ceiling : Nat) :
    (∀ (e : EntryPoint) r, e.read source text ceiling = .error (.report r) →
      r.failure.expectation = .endOfInput →
        r.RunsOut text ∨ e = .expression false ∧ r.LeavesOver text) ∧
    (∀ r, (iterForms source text ceiling).ending = some (.report r) →
      r.failure.expectation = .endOfInput → r.RunsOut text) ∧
    ∀ p, (∃ r, parseExpression source text false ceiling = .error (.report r) ∧
        r.failure.expectation = .endOfInput ∧ r.failure.pos = p ∧ r.LeavesOver text) ↔
      ∃ e d, Grammar.rules.run ceiling source (Grammar.trivia.andThen Grammar.expr)
        (.start text) = .ok e d ∧ d.rest ≠ [] ∧ d.pos = p := by
  have hstart := Cursor.start_at text
  refine ⟨fun e r hread hend => ?_, fun r hending hend => ?_, fun p => leavesOver_iff⟩
  · have hread' := EntryPoint.read_eq_error_iff.mp hread
    cases e with
    | program => exact Or.inl (runsOut_of_readFrom Grammar.runsOutAtEnd_program hstart hread' hend)
    | expression allowTrailing =>
        cases allowTrailing with
        | true =>
            exact Or.inl (runsOut_of_readFrom Grammar.runsOutAtEnd_leadingExpression hstart hread' hend)
        | false =>
            obtain ⟨hrun, htext, hdetail⟩ := run_of_endOfInput hread' hend
            rcases Grammar.eval_wholeExpression_fail hrun with hexpr | ⟨e, d, hexpr, hne, hf⟩
            · have hpos := Grammar.runsOutAtEnd_leadingExpression _ _ hexpr hend
              exact Or.inl (Report.runsOut_of_pos htext hdetail hend (hstart.endPos_eq ▸ hpos))
            · have hd := (Rules.reaches_of_run hexpr).at hstart
              have hlt : r.failure.pos < Position.start.advance text := by
                rw [hf, ← hd.endPos_eq]
                exact Cursor.pos_lt_endPos hne
              exact Or.inr ⟨rfl, Report.leavesOver_of_pos htext hdetail hend hlt⟩
  · rcases (iterForms_sessionEnds source ceiling text).exists_readFrom hending with
      hread | ⟨d, hd, hread⟩
    · exact runsOut_of_readFrom Grammar.runsOutAtEnd_trivia hstart hread hend
    · exact runsOut_of_readFrom Grammar.runsOutAtEnd_topLevel hd hread hend

/-- An application that is not closed, and two names where one is to stand alone. -/
theorem told_apart_nameAfterName :
    (∃ r, parseExpression "<memory>" "(a b".toList false = .error (.report r) ∧
      r.RunsOut "(a b".toList) ∧
    (∃ r, (iterForms "<memory>" "(a b".toList).ending = some (.report r) ∧
      r.RunsOut "(a b".toList) ∧
    ∃ r, parseExpression "<memory>" "a b".toList false = .error (.report r) ∧
      r.failure.pos = ⟨1, 3⟩ ∧ r.LeavesOver "a b".toList := by
  obtain ⟨hread, hsession, -⟩ := endOfInput_told_apart "<memory>" "(a b".toList nestingCeiling
  obtain ⟨-, -, hleft⟩ := endOfInput_told_apart "<memory>" "a b".toList nestingCeiling
  have hopen : parseExpression "<memory>" "(a b".toList false =
      .error (.report ⟨"<memory>", ⟨⟨1, 5⟩, .endOfInput⟩, some "(a b".toList, none⟩) := rfl
  have hending : (iterForms "<memory>" "(a b".toList).ending =
      some (.report ⟨"<memory>", ⟨⟨1, 5⟩, .endOfInput⟩, some "(a b".toList, none⟩) := rfl
  refine ⟨⟨_, hopen, ?_⟩, ⟨_, hending, hsession _ hending rfl⟩, ?_⟩
  · rcases hread (.expression false) _ hopen rfl with hout | ⟨-, hlt, -⟩
    · exact hout
    · exact absurd hlt (by decide)
  · obtain ⟨r, hr, -, hpos, hover⟩ := (hleft ⟨1, 3⟩).mpr ⟨_, _, rfl, by simp, rfl⟩
    exact ⟨r, hr, hpos, hover⟩

end PieSyntax
