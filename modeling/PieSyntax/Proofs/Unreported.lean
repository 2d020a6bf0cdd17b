import PieSyntax.Proofs.Progress

/-!
# What is not reported

An error is a report, or the run was broken off in a way that no report stands for.  There is one such
way: an expression starts with more digits than may be read.  It needs such a run of digits in the
text, though not every run of digits is read as a numeral: one in a comment, in a name or behind the
place where the text breaks off is not.

## Main results

* `EntryPoint.read_eq_interrupted_numeral_iff`, `iterForms_ending_interrupted_iff` — exactly when a
  reader gives up.
* `reported_unless_longNumeral` — a text without such a run of digits is read or reported.
* `parseExpression_longNumeral` — such a run alone is neither.
-/

namespace PieSyntax

variable {ceiling : Nat}

/-- Somewhere in the text that many digits stand in a row, and they are more than may be read. -/
def LongNumeralIn (text : Text) (n : Nat) : Prop :=
  ∃ before run after, text = before ++ run ++ after ∧ (∀ ch ∈ run, isDigit ch = true) ∧
    run.length = n ∧ maxDigits < n

theorem LongNumeralIn.lt_length {text : Text} {n : Nat} (h : LongNumeralIn text n) :
    maxDigits < text.length := by
  obtain ⟨before, run, after, rfl, -, hlength, hlong⟩ := h
  simp only [List.length_append]
  omega

variable {source : String} {text run : Text} {k n : Nat} {c d : Cursor}

namespace Grammar

open PieSyntax.Parser

/-- What gives up stands at a run of digits in the text. -/
theorem GivesUp.longNumeralIn {t : Task Production Production.Result} (h : GivesUp source t n)
    (hc : t.cursor.At text) : LongNumeralIn text n := by
  cases h with
  | @intro k c d token hok hlong =>
      obtain ⟨m, hdigits, -, -⟩ := eval_lexeme_ok hok
      obtain ⟨hpre, -⟩ := eval_digits_ok hdigits
      obtain ⟨r, hr, -, hall, -⟩ := digitPrefix_eq_some_iff.mp hpre
      obtain ⟨-, hrest, -⟩ := hc
      refine ⟨text.take c.offset, token.value, r, ?_, hall, rfl, hlong⟩
      rw [List.append_assoc, ← hr, hrest, List.take_append_drop]

theorem GivesUp.rest_ne_nil {t : Task Production Production.Result} (h : GivesUp source t n) :
    t.cursor.rest ≠ [] := by
  cases h with
  | @intro k c d token hok hlong =>
      have hlt := consumes_lexeme (rules.call_reaches source k) consumes_digits c token d hok
      have hpos : 0 < c.rest.length := by omega
      exact List.ne_nil_of_length_pos hpos

/-- Where digits come next, an expression tries a numeral. -/
theorem visits_natural (h : digitPrefix c.rest = some run) :
    Task.Visits rules source ⟨k, expr, c⟩ ⟨k, natural skip, c⟩ := by
  have hdigit : ∀ v, (Tails.empty False) v → ∀ x ∈ (c.rest ++ v).head?, isDigit x = true := by
    obtain ⟨ch, t, rfl, hch⟩ := head_of_digitPrefix h
    obtain ⟨r, hr⟩ := exists_of_digitPrefix h
    intro v hv x hx
    rw [head_append (V := .empty False) (show c.rest = ch :: (t ++ r) from hr) v hv x hx]
    exact hch
  have hbefore : Declines (rules.call source k) source (.empty False)
      ((tick.orElse variableName).orElse constant) c := declines_before_natLit hdigit
  obtain ⟨f, hf⟩ := hbefore.eval_fail
  have hchoice : Task.Visits rules source ⟨k, expr, c⟩
      ⟨k, choice [tick, variableName, constant, natLit, compound], c⟩ :=
    (Relation.ReflTransGen.single Task.Starts.named).tail .firstAlternative
  obtain ⟨g, g', hfirst, hconstant, -⟩ := eval_orElse_fail hf
  obtain ⟨g₁, g₂, htick, hname, -⟩ := eval_orElse_fail hfirst
  have hfails : ∀ q ∈ [tick, variableName, constant], ∃ f, rules.run k source q c = .fail f := by
    simp only [List.forall_mem_cons, List.not_mem_nil, false_imp_iff, implies_true, and_true]
    exact ⟨⟨g₁, htick⟩, ⟨g₂, hname⟩, ⟨g', hconstant⟩⟩
  have hnatLit : Task.Starts rules source
      ⟨k, choice ([tick, variableName, constant] ++ natLit :: [compound]), c⟩ ⟨k, natLit, c⟩ :=
    Task.Starts.choice hfails
  exact (hchoice.tail hnatLit).tail .refine

theorem run_skip_of_nil (hk : k ≠ 0) (h : c.rest = []) : rules.run k source skip c = .ok () c := by
  obtain ⟨k, rfl⟩ := Nat.exists_eq_succ_of_ne_zero hk
  have hsolid : Solid c.rest := by
    rw [h]
    exact fun ch hch => by cases hch
  exact eval_trivia_of_solid (k := k) hsolid

/-- An expression that starts with too many digits is neither read nor rejected. -/
theorem run_expr_longNumeral (h : digitPrefix c.rest = some run) (hlong : maxDigits < run.length)
    (hskip : rules.run k source skip (c.skip run) = .ok () d) :
    rules.run k source expr c = .interrupted (.numeralTooLong ⟨run.length⟩) := by
  have htoken : rules.run k source (lexeme skip digits) c =
      .ok ⟨⟨source, c.pos, (c.skip run).pos⟩, run⟩ d := by
    have hdigits := eval_digits_of_some (rules.call source k) source h
    show ((lexeme skip digits).eval (rules.call source k) source c) = _
    exact (follows_lexeme hdigits).ok d hskip
  have hgives : GivesUp source ⟨k, natural skip, c⟩ run.length := .intro htoken hlong
  exact Task.Visits.interrupted (t := ⟨k, expr, c⟩) (visits_natural h) hgives.raises.outcome_eq

end Grammar

/-! ## What the readers do not report -/

/-- The error is a report, or a numeral is to blame that has more digits than may be read, all of them
in the text. -/
inductive ReadError.Accounted (text : Text) : ReadError → Prop where
  | report (r : Report) : Accounted text (.report r)
  | longNumeral {n : Nat} (h : LongNumeralIn text n) :
    Accounted text (.interrupted (.numeralTooLong ⟨n⟩))

/-- A caller sees an interruption just when a numeral that is tried gives up. -/
theorem readFrom_eq_interrupted_numeral_iff {α : Type} {p : PieParser α} (h : Grammar.Started p)
    {why : Interruption} :
    readFrom source text c p ceiling = .error (.interrupted why) ↔
      ∃ u n, Task.Visits Grammar.rules source ⟨ceiling, p, c⟩ u ∧
        Grammar.GivesUp source u n ∧ why = .numeralTooLong ⟨n⟩ := by
  rw [readFrom_eq_interrupted_iff]
  constructor
  · rintro ⟨hne, hrun⟩
    exact (h.interrupted_iff hne).mp hrun
  · rintro ⟨u, n, hvisits, hgives, rfl⟩
    have hne : Interruption.numeralTooLong ⟨n⟩ ≠ .tooDeep := fun h => by cases h
    exact ⟨hne, (h.interrupted_iff hne).mpr ⟨u, n, hvisits, hgives, rfl⟩⟩

theorem accounted_of_readFrom {α : Type} {p : PieParser α} (h : Grammar.Started p) (hc : c.At text)
    {err : ReadError} (hread : readFrom source text c p ceiling = .error err) : err.Accounted text := by
  cases err with
  | report r => exact .report r
  | interrupted why =>
      obtain ⟨u, n, hvisits, hgives, rfl⟩ := (readFrom_eq_interrupted_numeral_iff h).mp hread
      exact .longNumeral (hgives.longNumeralIn (hvisits.reaches.at hc))

/-- A program or an expression is given up just when a numeral that is tried gives up. -/
theorem EntryPoint.read_eq_interrupted_numeral_iff {e : EntryPoint} {why : Interruption} :
    e.read source text ceiling = .error (.interrupted why) ↔
      ∃ u n, Task.Visits Grammar.rules source ⟨ceiling, e.parser, .start text⟩ u ∧
        Grammar.GivesUp source u n ∧ why = .numeralTooLong ⟨n⟩ := by
  rw [EntryPoint.read_eq_error_iff, readFrom_eq_interrupted_numeral_iff e.started]

/-- A session is given up just when a numeral of its next form gives up. -/
theorem iterForms_ending_interrupted_iff {why : Interruption} :
    (iterForms source text ceiling).ending = some (.interrupted why) ↔
      ∃ c d u n, Grammar.rules.run ceiling source Grammar.trivia (.start text) = .ok () c ∧
        FormsRead source ceiling c (iterForms source text ceiling).forms d ∧
        Task.Visits Grammar.rules source ⟨ceiling, Grammar.topLevel, d⟩ u ∧
        Grammar.GivesUp source u n ∧ why = .numeralTooLong ⟨n⟩ := by
  constructor
  · intro h
    have hends := iterForms_sessionEnds source ceiling text
    generalize iterForms source text ceiling = s at h hends ⊢
    cases hends with
    | stop hrun hforms hend => cases h
    | trivia hread =>
        cases h
        obtain ⟨hne, hrun⟩ := readFrom_eq_interrupted_iff.mp hread
        exact absurd (Grammar.confined_trivia _ why hrun) hne
    | @form c d ts e hrun hforms hend hread =>
        cases h
        obtain ⟨u, n, hvisits, hgives, rfl⟩ :=
          (readFrom_eq_interrupted_numeral_iff .topLevel).mp hread
        exact ⟨c, d, u, n, hrun, hforms, hvisits, hgives, rfl⟩
  · rintro ⟨c, d, u, n, hrun, hforms, hvisits, hgives, rfl⟩
    have hread : readFrom source text d Grammar.topLevel ceiling =
        .error (.interrupted (.numeralTooLong ⟨n⟩)) :=
      (readFrom_eq_interrupted_numeral_iff .topLevel).mpr ⟨u, n, hvisits, hgives, rfl⟩
    have hrest : d.rest ≠ [] := by
      intro hnil
      have hle := hvisits.reaches.length_le
      rw [hnil] at hle
      exact hgives.rest_ne_nil (List.length_eq_zero_iff.mp (Nat.le_zero.mp hle))
    rw [iterForms_eq_session hrun, hforms.session_eq text, session_of_error hrest hread]
    rfl

/-- Whatever error a reader ends with is a report, unless the text has more digits in a row than may be
read. -/
theorem reported_unless_longNumeral (source : String) (text : Text) :
    (∀ (e : EntryPoint) err, e.read source text ceiling = .error err → err.Accounted text) ∧
    ∀ err, (iterForms source text ceiling).ending = some err → err.Accounted text := by
  have hstart := Cursor.start_at text
  constructor
  · intro e err herr
    exact accounted_of_readFrom e.started hstart (EntryPoint.read_eq_error_iff.mp herr)
  · intro err herr
    rcases (iterForms_sessionEnds source ceiling text).exists_readFrom herr with hread | ⟨d, hd, hread⟩
    · exact accounted_of_readFrom .trivia hstart hread
    · exact accounted_of_readFrom .topLevel hd hread

/-- A bracket that is not closed is reported. -/
theorem reported_openBracket : ∃ r,
    parseExpression "<memory>" "(a 7".toList false = .error (.report r) := by
  have hnone : (parseExpression "<memory>" "(a 7".toList false).toOption.isNone = true := by
    decide +kernel
  cases hread : parseExpression "<memory>" "(a 7".toList false with
  | ok x =>
      rw [hread] at hnone
      cases hnone
  | error err =>
      obtain ⟨hreaders, -⟩ := reported_unless_longNumeral "<memory>" "(a 7".toList
      cases hreaders (.expression false) err hread with
      | report r => exact ⟨r, rfl⟩
      | longNumeral hlong => exact absurd hlong.lt_length (by decide)

/-! ## A numeral alone -/

/-- A text that is a numeral with more digits than may be read is neither read nor reported. -/
theorem parseExpression_longNumeral (source : String) (hdigits : ∀ ch ∈ text, isDigit ch = true)
    (hlong : maxDigits < text.length) (allowTrailing : Bool) (hroom : ceiling ≠ 0) :
    parseExpression source text allowTrailing ceiling =
      .error (.interrupted (.numeralTooLong ⟨text.length⟩)) := by
  obtain ⟨ch, t, rfl⟩ := List.exists_cons_of_length_pos (Nat.zero_lt_of_lt hlong)
  have hpre : digitPrefix (Cursor.start (ch :: t)).rest = some (ch :: t) :=
    digitPrefix_eq_some_iff.mpr ⟨[], (List.append_nil _).symm, by simp, hdigits, by simp⟩
  have hsolid : Solid (Cursor.start (ch :: t)).rest :=
    solid_cons (startsTrivia_of_isDigit (hdigits ch (by simp))) t
  have hend : ((Cursor.start (ch :: t)).skip (ch :: t)).rest = [] := by
    simp [Cursor.start, Cursor.skip]
  have htrivia : Grammar.rules.run ceiling source Grammar.trivia (.start (ch :: t)) =
      .ok () (.start (ch :: t)) := Grammar.eval_trivia_of_solid hsolid
  have hskip : Grammar.rules.run ceiling source Grammar.skip
      ((Cursor.start (ch :: t)).skip (ch :: t)) = .ok () _ :=
    Grammar.run_skip_of_nil hroom hend
  have hexpr := Grammar.run_expr_longNumeral hpre hlong hskip
  have hvisits : Task.Visits Grammar.rules source
      ⟨ceiling, expressionParser allowTrailing, .start (ch :: t)⟩
      ⟨ceiling, Grammar.expr, .start (ch :: t)⟩ := by
    cases allowTrailing with
    | true => exact (Relation.ReflTransGen.single .named).tail (.bindNext htrivia)
    | false =>
        exact (((Relation.ReflTransGen.single .named).tail .bindFirst).tail .named).tail
          (.bindNext htrivia)
  have hrun := hvisits.interrupted hexpr
  have hread : (EntryPoint.expression allowTrailing).read source (ch :: t) ceiling =
      .error (.interrupted (.numeralTooLong ⟨(ch :: t).length⟩)) :=
    EntryPoint.read_eq_interrupted_iff.mpr ⟨fun h => (by cases h), hrun⟩
  exact hread

/-- It is not so that every error is a report. -/
theorem not_always_reported : ¬ ∀ (source : String) (text : Text) (e : EntryPoint) err,
    e.read source text = .error err → ∃ r, err = .report r := by
  intro h
  have hdigits : ∀ ch ∈ List.replicate 4301 '0', isDigit ch = true := by
    intro ch hch
    obtain rfl := List.eq_of_mem_replicate hch
    decide
  have hlong : maxDigits < (List.replicate 4301 '0').length := by
    rw [List.length_replicate]
    decide
  have hroom : nestingCeiling ≠ 0 := by decide
  have hread := parseExpression_longNumeral "<memory>" hdigits hlong false hroom
  obtain ⟨r, hr⟩ := h _ _ (.expression false) _ hread
  cases hr

end PieSyntax
