import PieSyntax.Proofs.Entry

/-!
# Forms one at a time

An interactive session looks for the end of the text and reads a form, over and over; a program does
so with a repetition that ends where the text does.  The two go the same way from wherever they
start.  The repetition adds to the failure of a form that the end of the text was not found either,
and a failed form drowns that out: it has got further, or it says that an expression was expected.

## Main results

* `Grammar.furthest_of_eval_topLevel` — the failure of a form is not changed by a failed stop.
* `readForms_ends`, `iterForms_ends` — a session ends as the repetition does.
-/

namespace PieSyntax

variable {ceiling : Nat}

/-! ## Failures of a form -/

/-- A failure says something at `p`, or lies further on. -/
def Failure.Tells (f : Failure) (p : Position) : Prop :=
  p < f.pos ∨ f.pos = p ∧ f.expectation ≠ .generic

theorem Expectation.merge_ne_generic {e e' : Expectation} (h : e' ≠ .generic) :
    e.merge e' ≠ .generic := by
  cases e <;> cases e' <;> simp_all [Expectation.merge]

/-- What the second of two failures tells is told by the furthest. -/
theorem Failure.Tells.furthest {f g : Failure} {p : Position} (h : g.Tells p) :
    (f.furthest g).Tells p := by
  rcases h with hlt | ⟨hpos, hne⟩
  · rcases Failure.pos_le_furthest f g with hle | heq
    · exact Or.inl (Position.lt_trans hlt hle)
    · exact Or.inl (heq ▸ hlt)
  · rcases Position.lt_trichotomy f.pos g.pos with hfg | hfg | hfg
    · rw [Failure.furthest_of_lt hfg]
      exact Or.inr ⟨hpos, hne⟩
    · rw [Failure.furthest_of_pos_eq hfg]
      exact Or.inr ⟨hfg.trans hpos, Expectation.merge_ne_generic hne⟩
    · rw [Failure.furthest_of_gt hfg]
      exact Or.inl (hpos ▸ hfg)

/-- A failure that tells something drowns out the end of the text. -/
theorem Failure.Tells.furthest_endOfInput {f : Failure} {p : Position} (h : f.Tells p) :
    (⟨p, .endOfInput⟩ : Failure).furthest f = f := by
  rcases h with hlt | ⟨hpos, hne⟩
  · exact Failure.furthest_of_lt hlt
  · rw [Failure.furthest_of_pos_eq hpos.symm]
    obtain ⟨pos, expectation⟩ := f
    obtain rfl := hpos
    cases expectation with
    | generic => exact absurd rfl hne
    | expected literals descriptions => rfl
    | endOfInput => rfl

namespace Grammar

variable {source : String} {k : Nat} {c d : Cursor}

theorem tells_of_eval_describe {α : Type} {p : PieParser α} {description : String} {f : Failure}
    (h : (p.describe description).eval (rules.call source k) source c = .fail f) :
    f.Tells c.pos := by
  unfold Parser.describe at h
  rw [Parser.eval, Parser.eval_orElse, Parser.eval, Outcome.failAt] at h
  cases hp : p.eval (rules.call source k) source c with
  | ok a d => rw [hp] at h; cases h
  | interrupted why => rw [hp] at h; cases h
  | fail g =>
      rw [hp] at h
      cases h
      have htold : (⟨c.pos, .ofDescription description⟩ : Failure).Tells c.pos :=
        Or.inr ⟨rfl, fun hnone => by cases hnone⟩
      exact htold.furthest

/-- A form that fails where it starts says that an expression was expected there. -/
theorem tells_of_eval_topLevel {f : Failure}
    (h : topLevel.eval (rules.call source k) source c = .fail f) : f.Tells c.pos := by
  unfold topLevel at h
  rw [Parser.eval_orElse] at h
  cases hcommand : (parensLocated skip (dispatch commandTable commandBody)).eval
      (rules.call source k) source c with
  | ok t d => rw [hcommand] at h; cases h
  | interrupted why => rw [hcommand] at h; cases h
  | fail g =>
      rw [hcommand] at h
      cases hexpr : expr.eval (rules.call source k) source c with
      | ok e d =>
          rw [Parser.map, Parser.eval, hexpr] at h
          cases h
      | interrupted why =>
          rw [Parser.map, Parser.eval, hexpr] at h
          cases h
      | fail g' =>
          rw [Parser.map, Parser.eval, hexpr] at h
          cases h
          exact (tells_of_eval_describe hexpr).furthest

/-- The failure of a form is not changed by a failed stop. -/
theorem furthest_of_eval_topLevel {f : Failure}
    (h : topLevel.eval (rules.call source k) source c = .fail f) :
    (⟨c.pos, .endOfInput⟩ : Failure).furthest f = f :=
  (tells_of_eval_topLevel h).furthest_endOfInput

/-- A form takes a character at least. -/
theorem offset_ne_of_eval_topLevel {t : TopLevel}
    (h : topLevel.eval (rules.call source k) source c = .ok t d) : d.offset ≠ c.offset := by
  obtain ⟨x, m, hx, -, hskip⟩ := stands_of_eval_topLevel h
  exact offset_ne_of_stands (V := .empty True) (skippable_of_cut trivial) hx
    (gap_of_eval_skip hskip)

end Grammar

/-! ## Sessions -/

/-- The session ends as the run does: with its forms, or after some forms with its failure or its
interruption. -/
inductive Ends (source : String) (text : Text) : Outcome (List TopLevel) → FormSequence → Prop where
  | ok (ts : List TopLevel) (d : Cursor) : Ends source text (.ok ts d) ⟨ts, none⟩
  | fail (ts : List TopLevel) (f : Failure) :
    Ends source text (.fail f) ⟨ts, some (.report ⟨source, f, some text, none⟩)⟩
  | tooDeep (ts : List TopLevel) (c : Cursor) :
    Ends source text (.interrupted .tooDeep) ⟨ts, some (.report (tooDeepReport source text c))⟩
  | interrupted (ts : List TopLevel) (why : Interruption) (h : why ≠ .tooDeep) :
    Ends source text (.interrupted why) ⟨ts, some (.interrupted why)⟩

variable {source : String} {text : Text}

/-- A session that has come to an error. -/
theorem ends_of_readFrom {α : Type} {c : Cursor} {p : PieParser α} {e : ReadError}
    {o : Outcome (List TopLevel)} (done : List TopLevel)
    (h : readFrom source text c p ceiling = .error e)
    (hfail : ∀ f, Grammar.rules.run ceiling source p c = .fail f → o = .fail f)
    (hstop : ∀ why, Grammar.rules.run ceiling source p c = .interrupted why →
      o = .interrupted why) : Ends source text o ⟨done, some e⟩ := by
  rw [readFrom] at h
  cases hrun : Grammar.rules.run ceiling source p c with
  | ok a d => rw [hrun] at h; cases h
  | fail f =>
      rw [hrun] at h
      cases h
      rw [hfail f hrun]
      exact .fail done f
  | interrupted why =>
      rw [hrun] at h
      rw [hstop why hrun]
      cases why with
      | tooDeep => cases h; exact .tooDeep done c
      | stalled loop label pos => cases h; exact .interrupted done _ (by simp)
      | numeralTooLong e => cases h; exact .interrupted done _ (by simp)
      | sourceMismatch mismatch => cases h; exact .interrupted done _ (by simp)
      | refused reason => cases h; exact .interrupted done _ (by simp)

/-- The forms that come next in a session are those that the repetition reads. -/
theorem readForms_ends (fuel : Text) (c : Cursor) (done : List TopLevel)
    (hfuel : c.rest.length ≤ fuel.length) :
    Ends source text
      (((Grammar.topLevel.manyTill .eof).eval (Grammar.rules.call source ceiling) source
        c).andThen fun ts d => .ok (done.reverse ++ ts) d)
      (readForms ceiling source text fuel c done) := by
  have hcall := Grammar.rules.call_reaches source ceiling
  induction fuel generalizing c done with
  | nil =>
      have hend : c.atEnd = true :=
        List.isEmpty_iff.mpr (List.eq_nil_of_length_eq_zero (Nat.le_zero.mp hfuel))
      rw [Parser.eval_manyTill hcall, Parser.eval, if_pos hend, readForms]
      rw [Outcome.andThen_ok, List.append_nil]
      exact .ok done.reverse c
  | cons ch fuel ih =>
      rw [Parser.eval_manyTill hcall, Parser.eval, readForms]
      by_cases hend : c.atEnd = true
      · rw [if_pos hend, if_pos hend]
        rw [Outcome.andThen_ok, List.append_nil]
        exact .ok done.reverse c
      · rw [if_neg hend, if_neg hend, Outcome.failAt]
        cases hread : readFrom source text c Grammar.topLevel ceiling with
        | error e =>
            refine ends_of_readFrom done.reverse hread (fun f hf => ?_) fun why hwhy => ?_
            · have htop : Grammar.topLevel.eval (Grammar.rules.call source ceiling) source c =
                  .fail f := hf
              simp only [htop, Outcome.andThen_fail, Grammar.furthest_of_eval_topLevel htop]
            · have htop : Grammar.topLevel.eval (Grammar.rules.call source ceiling) source c =
                  .interrupted why := hwhy
              simp only [htop, Outcome.andThen_interrupted]
        | ok progress =>
            obtain ⟨t, d⟩ := progress
            have htop : Grammar.topLevel.eval (Grammar.rules.call source ceiling) source c =
                .ok t d := readFrom_eq_ok_iff.mp hread
            have hne := Grammar.offset_ne_of_eval_topLevel htop
            have hreach := Parser.reaches_of_eval hcall htop
            have hlt := hreach.rest_lt hne
            rw [List.length_cons] at hfuel
            have hrest := ih d (t :: done) (by omega)
            simp only [htop, hne, if_false]
            -- The form joins those that were read before it.
            cases hmany : (Grammar.topLevel.manyTill .eof).eval
                (Grammar.rules.call source ceiling) source d with
            | ok ts e => simpa [hmany] using hrest
            | fail f => simpa [hmany] using hrest
            | interrupted why => simpa [hmany] using hrest

namespace Grammar

/-- The forms of a text without a first line. -/
def forms : PieParser (List TopLevel) := trivia.andThen (topLevel.manyTill .eof)

end Grammar

/-- A session ends as the repetition does. -/
theorem iterForms_ends (source : String) (text : Text) (ceiling : Nat) :
    Ends source text (Grammar.rules.run ceiling source Grammar.forms (.start text))
      (iterForms source text ceiling) := by
  rw [iterForms]
  show Ends source text ((Grammar.trivia.eval (Grammar.rules.call source ceiling) source
    (.start text)).andThen fun _ c => (Grammar.topLevel.manyTill .eof).eval
      (Grammar.rules.call source ceiling) source c) _
  cases hread : readFrom source text (.start text) Grammar.trivia ceiling with
  | error e =>
      refine ends_of_readFrom [] hread (fun f hf => ?_) fun why hwhy => ?_
      · rw [show Grammar.trivia.eval (Grammar.rules.call source ceiling) source
          (.start text) = .fail f from hf, Outcome.andThen_fail]
      · rw [show Grammar.trivia.eval (Grammar.rules.call source ceiling) source
          (.start text) = .interrupted why from hwhy, Outcome.andThen_interrupted]
  | ok progress =>
      obtain ⟨u, c⟩ := progress
      have htrivia : Grammar.trivia.eval (Grammar.rules.call source ceiling) source
          (.start text) = .ok u c := readFrom_eq_ok_iff.mp hread
      have hforms : Ends source text _ (readForms ceiling source text c.rest c []) :=
        readForms_ends c.rest c [] (Nat.le_refl _)
      rw [htrivia, Outcome.andThen_ok]
      cases hmany : (Grammar.topLevel.manyTill .eof).eval
          (Grammar.rules.call source ceiling) source c with
      | ok ts d => simpa [hmany] using hforms
      | fail f => simpa [hmany] using hforms
      | interrupted why => simpa [hmany] using hforms

end PieSyntax
