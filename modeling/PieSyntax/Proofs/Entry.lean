import PieSyntax.Proofs.Complete
import PieSyntax.Reading.Source

/-!
# The ways into the grammar and the runs behind them

Each entry point runs a parser of the grammar under the ceiling of the reader and turns the outcome
into what its caller sees.  A run that was cut off is told by the detail of its report, so
`BelowCeiling` is a condition on what the caller sees.

## Main results

* `parseSource_eq_ok_iff`, `parseExpression_eq_ok_iff` — a value is returned just when the run
  succeeds.
* `BelowCeiling.parseSource`, `BelowCeiling.parseExpression` — no report on nesting means that the
  run was not cut off.
* `stands_of_parseSource`, `parseSource_of_stands` — what is returned for a program is what stands in
  its text.
-/

namespace PieSyntax

variable {ceiling : Nat}

/-- What was read is not a report on nesting that is too deep. -/
def BelowCeiling {α : Type} (o : Except ReadError α) : Prop :=
  ∀ r, o = .error (.report r) → r.detail ≠ some tooDeepMessage

theorem BelowCeiling.ok {α : Type} (a : α) : BelowCeiling (.ok a : Except ReadError α) := by
  intro r h
  cases h

theorem exists_eq_ok_of_isSome {α : Type} {o : Except ReadError α} (h : o.toOption.isSome = true) :
    ∃ a, o = .ok a := by
  cases o with
  | error e => cases h
  | ok a => exact ⟨a, rfl⟩

/-- What was read is a report on the text itself. -/
def isPlainReport {α : Type} : Except ReadError α → Bool
  | .error (.report r) => r.detail.isNone
  | _ => false

theorem exists_eq_report_of_isPlainReport {α : Type} {o : Except ReadError α}
    (h : isPlainReport o = true) : BelowCeiling o ∧ ∃ r, o = .error (.report r) := by
  match o with
  | .ok a => cases h
  | .error (.interrupted why) => cases h
  | .error (.report r) =>
      have hdetail : r.detail = none := Option.isNone_iff_eq_none.mp h
      refine ⟨fun r' hr' => ?_, r, rfl⟩
      cases hr'
      rw [hdetail]
      exact fun hnone => by cases hnone

variable {α : Type} {source : String} {text : Text} {c d : Cursor} {p : PieParser α}

theorem readFrom_eq_ok_iff {a : α} : readFrom source text c p ceiling = .ok ⟨a, d⟩ ↔
    Grammar.rules.run ceiling source p c = .ok a d := by
  rw [readFrom]
  cases Grammar.rules.run ceiling source p c with
  | ok a' d' =>
      constructor
      · intro h
        cases h
        rfl
      · intro h
        cases h
        rfl
  | fail f =>
      constructor
      · intro h
        cases h
      · intro h
        cases h
  | interrupted why =>
      constructor
      · intro h
        cases why <;> cases h
      · intro h
        cases h

theorem BelowCeiling.readFrom (h : BelowCeiling (readFrom source text c p ceiling)) :
    Grammar.rules.run ceiling source p c ≠ .interrupted .tooDeep := by
  intro hdeep
  refine h (tooDeepReport source text c) ?_ rfl
  rw [PieSyntax.readFrom, hdeep]

/-- A report that is not about nesting is a failure of the run. -/
theorem run_of_readFrom {r : Report} (h : readFrom source text c p ceiling = .error (.report r))
    (hdetail : r.detail ≠ some tooDeepMessage) :
    Grammar.rules.run ceiling source p c = .fail r.failure := by
  rw [readFrom] at h
  cases hrun : Grammar.rules.run ceiling source p c with
  | ok v d => rw [hrun] at h; cases h
  | fail f => rw [hrun] at h; cases h; rfl
  | interrupted why =>
      rw [hrun] at h
      cases why with
      | tooDeep => cases h; exact absurd rfl hdetail
      | stalled loop label pos => cases h
      | numeralTooLong e => cases h
      | sourceMismatch mismatch => cases h
      | refused reason => cases h

theorem BelowCeiling.map {β : Type} {o : Except ReadError α} {f : α → β}
    (h : BelowCeiling (o.map f)) : BelowCeiling o := by
  intro r hr
  exact h r (by rw [hr]; rfl)

/-- An entry point returns the value of its run. -/
theorem value_readFrom_eq_ok_iff {a : α} : (readFrom source text c p ceiling).map (·.value) = .ok a ↔
    ∃ d, Grammar.rules.run ceiling source p c = .ok a d := by
  constructor
  · intro h
    cases hread : readFrom source text c p ceiling with
    | error e => rw [hread] at h; cases h
    | ok progress =>
        obtain ⟨value, next⟩ := progress
        rw [hread] at h
        cases h
        exact ⟨next, readFrom_eq_ok_iff.mp hread⟩
  · rintro ⟨d, hd⟩
    rw [readFrom_eq_ok_iff.mpr hd]
    rfl

theorem parseSource_eq_ok_iff {ts : List TopLevel} : parseSource source text ceiling = .ok ts ↔
    ∃ d, Grammar.rules.run ceiling source Grammar.program (.start text) = .ok ts d :=
  value_readFrom_eq_ok_iff

/-- What is returned under a ceiling is returned under every higher one. -/
theorem parseSource_eq_ok_of_le {ceiling' : Nat} {ts : List TopLevel}
    (h : parseSource source text ceiling = .ok ts) (hle : ceiling ≤ ceiling') :
    parseSource source text ceiling' = .ok ts := by
  obtain ⟨d, hrun⟩ := parseSource_eq_ok_iff.mp h
  refine parseSource_eq_ok_iff.mpr ⟨d, ?_⟩
  rcases Grammar.rules.run_upTo hle source Grammar.program (.start text) with hdeep | hsame
  · cases hrun.symm.trans hdeep
  · exact hsame ▸ hrun

theorem parseExpression_eq_ok_iff {e : Expr} {allowTrailing : Bool} :
    parseExpression source text allowTrailing ceiling = .ok e ↔
      ∃ d, Grammar.rules.run ceiling source (expressionParser allowTrailing)
        (.start text) = .ok e d :=
  value_readFrom_eq_ok_iff

/-- An expression is returned when it is read after trivia and nothing is left then. -/
theorem parseExpression_eq_ok_iff_eval {e : Expr} : parseExpression source text false ceiling = .ok e ↔
    ∃ c d, Grammar.trivia.eval (Grammar.rules.call source ceiling) source (.start text) =
      .ok () c ∧ Grammar.expr.eval (Grammar.rules.call source ceiling) source c = .ok e d ∧
        d.rest = [] := by
  rw [parseExpression_eq_ok_iff]
  constructor
  · rintro ⟨d, hd⟩
    obtain ⟨u, d', hread, hend⟩ := Parser.eval_followedBy_ok hd
    obtain ⟨u', c, htrivia, hexpr⟩ := Parser.eval_andThen_ok hread
    refine ⟨c, d', htrivia, hexpr, ?_⟩
    rw [Parser.eval] at hend
    by_cases hat : d'.atEnd = true
    · exact List.isEmpty_iff.mp hat
    · rw [if_neg hat] at hend
      cases hend
  · rintro ⟨c, d, htrivia, hexpr, hd⟩
    have hat : d.atEnd = true := List.isEmpty_iff.mpr hd
    refine ⟨d, ?_⟩
    show (((Grammar.trivia.eval (Grammar.rules.call source ceiling) source
      (.start text)).andThen fun _ c => Grammar.expr.eval
        (Grammar.rules.call source ceiling) source c).andThen fun e d =>
          ((Parser.eof : PieParser Unit).eval (Grammar.rules.call source ceiling) source
            d).andThen fun _ d => .ok e d) = .ok e d
    rw [htrivia, Outcome.andThen_ok, hexpr, Outcome.andThen_ok, Parser.eval, if_pos hat]
    rfl

theorem BelowCeiling.parseSource (h : BelowCeiling (parseSource source text ceiling)) :
    Grammar.rules.run ceiling source Grammar.program (.start text) ≠
      .interrupted .tooDeep :=
  (BelowCeiling.map h).readFrom

theorem BelowCeiling.parseExpression {allowTrailing : Bool}
    (h : BelowCeiling (parseExpression source text allowTrailing ceiling)) :
    Grammar.rules.run ceiling source (expressionParser allowTrailing) (.start text) ≠
      .interrupted .tooDeep :=
  (BelowCeiling.map h).readFrom

/-! ## Programs -/

/-- What is returned is what stands in the text. -/
theorem stands_of_parseSource {source : String} {s : Text} {ts : List TopLevel}
    (h : parseSource source s ceiling = .ok ts) :
    ∃ xs c₁ d r, s = Grammar.header ++ r ∧ ((Cursor.start s).skip Grammar.header).Gap c₁ ∧
      SExpr.StandAll source xs c₁ d ∧ elaborateProgram id xs = some ts ∧ d.rest = [] := by
  obtain ⟨d, hd⟩ := parseSource_eq_ok_iff.mp h
  obtain ⟨xs, c₁, r, hr, hgap, hxs, hmean, hnil⟩ := Grammar.standAll_of_eval_program hd
  exact ⟨xs, c₁, d, r, hr, hgap, hxs, hmean, hnil⟩

/-- What stands in the text is returned, unless it is nested too deeply. -/
theorem parseSource_of_stands {source : String} {s r : Text} {ts : List TopLevel}
    {xs : List (SExpr Location)} {c₁ d : Cursor} (hbelow : BelowCeiling (parseSource source s ceiling))
    (hr : s = Grammar.header ++ r) (hgap : ((Cursor.start s).skip Grammar.header).Gap c₁)
    (hxs : SExpr.StandAll source xs c₁ d) (hmean : elaborateProgram id xs = some ts)
    (hd : d.rest = []) : parseSource source s ceiling = .ok ts := by
  have hrun : Parser.Returns (Grammar.rules.call source ceiling) source (.empty True)
      Grammar.program (Cursor.start s) ts d :=
    Grammar.returns_program (Grammar.skippable_of_cut trivial) hr hgap hxs hmean hd
      (Or.inl trivial) fun _ _ => Or.inl trivial
  rcases hrun.eval with ⟨-, hdeep⟩ | hok
  · exact absurd hdeep hbelow.parseSource
  · exact parseSource_eq_ok_iff.mpr ⟨d, hok⟩

end PieSyntax
