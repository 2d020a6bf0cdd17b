import PieSyntax.Proofs.Finish
import PieSyntax.Proofs.StuckExpression

/-!
# Programs that fail

A top-level form is a command or an expression.  Both open the same list; a command word is no
keyword of an expression and cannot be applied, so after one the command decides, and the expression
otherwise.  A program fails in its first line or at a form, and an expression that stands alone also
where input is left over.

## Main results

* `Grammar.stuckAt_of_eval_topLevel` — a top-level form that fails is stuck.
* `Grammar.eval_program_fail`, `Grammar.eval_expressionParser_fail` — the places where the ways into
  the grammar fail.
-/

namespace PieSyntax

namespace Grammar

open PieSyntax.Parser

variable {source : String} {k : Nat} {c d : Cursor} {f : Failure}

theorem ExprStuckAt.call {j : Nat} (h : ExprStuckAt source j c f) : ExprStuckAt source k c f := by
  obtain ⟨e, hints, hstuck, hat, hword, hopen⟩ := h
  refine ⟨e, hints, hstuck, hat, fun g hg => hword g ?_, hopen⟩
  rw [eval_identifier_call j k]
  exact hg

theorem callsStuck (source : String) (k : Nat) : CallsStuck source k := by
  induction k with
  | zero =>
      intro c f h
      cases h
  | succ k ih =>
      intro c f h
      have hstuck : ExprStuckAt source k c f := exprStuckAt_of_eval_expr ih h
      exact hstuck.call

/-! ## Top-level forms -/

theorem slots_of_command (command : Command) : ∀ t ∈ command.shape.first, t ≠ .topLevel := by
  cases command <;> decide

/-- A list that starts with a command word is no expression: that word is rejected. -/
theorem at_of_eval_expr_command {c₁ : Cursor} {name : Text} {command : Command} {r : Text}
    (hr : c.rest = '(' :: r)
    (hskip : skip.eval (rules.call source k) source (c.skip ['(']) = .ok () c₁)
    (hword : wordPrefix c₁.rest = some name) (hlookup : commandTable.lookup name = some command)
    (h : expr.eval (rules.call source k) source c = .fail f) : f.At c₁ Slot.expr.hints := by
  obtain ⟨hreserved, hconstant, hhead⟩ := reserved_of_lookup_command hlookup
  have hopened := (gap_of_eval_skip hskip).reaches
  refine at_of_eval_expr_open hr hopened (fun g hg => ?_) h
  obtain ⟨c₁', e, hints, hskip', hstuck, hat, hreach, -⟩ :=
    stuck_of_eval_compound (callsStuck source k) hr hg
  rcases eval_parens_fail (runsAs_compound.eval_eq_fail hg) with
    ⟨hnot, -⟩ | ⟨r', c₂, -, hskip₂, hfail | ⟨u, d, hok, -⟩⟩
  · exact absurd (by rw [hr]; rfl) hnot
  · rw [hskip, Outcome.ok.injEq] at hskip₂
    obtain ⟨-, rfl⟩ := hskip₂
    obtain ⟨g₁, g₂, hdispatch, happ, rfl⟩ := eval_orElse_fail hfail
    have happlied := at_of_eval_application hword hreserved hconstant happ
    refine Failure.At.furthest_right ?_ happlied
    rcases eval_bind_fail hdispatch with htable | ⟨entry, d, htable, -⟩
    · rcases eval_keywordTable_fail htable with hid | ⟨-, hat'⟩
      · rw [eval_identifier_of_some _ _ hword] at hid
        cases hid
      · exact (hat'.mono fun ch hch => by cases hch).upTo
    · obtain ⟨name', hword', hlookup', -⟩ := eval_keywordTable_ok htable
      rw [hword, Option.some.injEq] at hword'
      subst hword'
      rw [hhead] at hlookup'
      cases hlookup'
  · rw [hskip, Outcome.ok.injEq] at hskip₂
    obtain ⟨-, rfl⟩ := hskip₂
    rcases eval_orElse_ok hok with hdispatch | happ
    · obtain ⟨entry, d', htable, -⟩ := eval_bind_ok hdispatch
      obtain ⟨name', hword', hlookup', -⟩ := eval_keywordTable_ok htable
      rw [hword, Option.some.injEq] at hword'
      subst hword'
      rw [hhead] at hlookup'
      cases hlookup'
    · obtain ⟨u', d', hfirst, -⟩ := eval_bind_ok happ
      obtain ⟨e', he', -⟩ := eval_map_ok hfirst
      cases k with
      | zero => cases he'
      | succ k => exact absurd he' (eval_expr_ne_ok_of_reserved hword hreserved hconstant e' d')

/-- A top-level form fails where it is stuck. -/
theorem stuckAt_of_eval_topLevel
    (h : topLevel.eval (rules.call source k) source c = .fail f) :
    StuckAt source .topLevel c f := by
  have ih := callsStuck source k
  obtain ⟨g₁, g₂, hcommand, hform, rfl⟩ := eval_orElse_fail h
  have hexpr := eval_map_fail hform
  rcases eval_parens_fail (runsAs_command.eval_eq_fail hcommand) with
    ⟨hopen, hat₁⟩ | ⟨r, c₁, hr, hskip, hinside⟩
  · obtain ⟨e, hints, hstuck, hat₂, -, hparen⟩ := exprStuckAt_of_eval_expr ih hexpr
    exact ⟨e, hints, .form hstuck, Failure.At.furthest_right (hparen g₁ hopen hat₁) hat₂⟩
  have hgap := gap_of_eval_skip hskip
  -- The command is found, and the expression gets no further than its word.
  have hfound : ∀ {entry : Located Command} {c₂ : Cursor},
      (keywordTable skip commandTable).eval (rules.call source k) source c₁ = .ok entry c₂ →
        ∃ loc name, commandTable.lookup name = some entry.value ∧
          SExpr.StandAfter source [.word loc name] (c.skip ['(']) c₂ ∧
            ∀ e hints, c₂.Reaches e → g₂.UpTo e hints := by
    intro entry c₂ htable
    obtain ⟨name, hword, hlookup, -, hskip₂⟩ := eval_keywordTable_ok htable
    have hgap₂ := gap_of_eval_skip hskip₂
    refine ⟨⟨source, c₁.pos, (c₁.skip name).pos⟩, name, hlookup,
      ⟨c₁, hgap, c₁.skip name, c₂, ⟨hword, rfl, rfl⟩, hgap₂, rfl⟩, fun e hints hreach => ?_⟩
    exact (at_of_eval_expr_command hr hskip hword hlookup hexpr).upTo_of_pos_lt
      ((hgap₂.reaches.trans hreach).pos_lt_of_skip (IsWord.of_wordPrefix hword).ne_nil)
  rcases hinside with hfail | ⟨u, d, hok, hat₁⟩
  · rcases eval_bind_fail hfail with htable | ⟨entry, c₂, htable, hbody⟩
    · obtain ⟨f', hchoice, -⟩ := eval_describe_fail hexpr
      obtain ⟨g, hg, -⟩ := exists_fail_of_eval_choice hchoice compound (by simp)
      obtain ⟨c₁', e, hints, hskip', hstuck, hat, hreach, hword⟩ := stuck_of_eval_compound ih hr hg
      rw [hskip, Outcome.ok.injEq] at hskip'
      obtain ⟨-, rfl⟩ := hskip'
      have hat₂ : g₂.At e hints := at_of_eval_expr_open hr (hgap.reaches.trans hreach)
        (fun g' hg' => by rw [hg] at hg'; cases hg'; exact hat) hexpr
      exact ⟨e, hints, .form hstuck,
        Failure.At.furthest_right (upTo_of_eval_keywordTable hreach hword htable) hat₂⟩
    · obtain ⟨loc, name, hlookup, hlead, hup⟩ := hfound htable
      obtain ⟨e, hints, hstuck, hat, hreach⟩ := stuckAt_of_eval_lead ih (.command hlookup)
        (slots_of_command entry.value) hr hlead hbody
      exact ⟨e, hints, hstuck, hat.furthest (hup e hints hreach)⟩
  · obtain ⟨entry, c₂, htable, hbody⟩ := eval_bind_ok hok
    obtain ⟨loc, name, hlookup, ⟨c₀, hgap₀, hword₀⟩, hup⟩ := hfound htable
    obtain ⟨xs, hxs, hall⟩ := acceptAll_of_eval_items hbody
    exact ⟨d, _, .close (.command hlookup) ⟨r, hr⟩ ⟨c₀, hgap₀, hword₀.append hxs⟩ hall,
      hat₁.furthest (hup d _ hxs.reaches)⟩

/-! ## Ways into the grammar -/

/-- The forms before the one that failed stand in the text. -/
theorem eval_forms_fail
    (h : (topLevel.manyTill .eof).eval (rules.call source k) source c = .fail f) :
    ∃ xs d, SExpr.StandAll source xs c d ∧ (∀ x ∈ xs, Slot.topLevel.Accepts x) ∧
      StuckAt source .topLevel d f := by
  have hcall := rules.call_reaches source k
  induction c using Cursor.forward_induction with
  | step c ih =>
      obtain ⟨g, hend, ⟨g', hform, rfl⟩ | ⟨t, d, hform, hlt, hrest⟩⟩ := eval_manyTill_fail hcall h
      · obtain ⟨e, hints, hstuck, hat⟩ := stuckAt_of_eval_topLevel hform
        exact ⟨[], c, rfl, List.forall_mem_nil _, e, hints, hstuck,
          Failure.At.furthest_right ((at_of_eval_eof hend).upTo_of_reaches hstuck.reaches) hat⟩
      · obtain ⟨xs, e, hxs, hall, hstuck⟩ := ih d hlt hrest
        obtain ⟨x, m, hx, hmean, hskip⟩ := stands_of_eval_topLevel hform
        refine ⟨x :: xs, e, ⟨m, d, hx, gap_of_eval_skip hskip, hxs⟩, fun y hy => ?_, hstuck⟩
        rcases List.mem_cons.mp hy with rfl | hy
        · exact ⟨t, hmean⟩
        · exact hall y hy

/-- A program fails in its first line or at a form. -/
theorem eval_program_fail (h : program.eval (rules.call source k) source c = .fail f) :
    (∃ u ch s r, header = u ++ ch :: s ∧ c.rest = u ++ r ∧ f.At (c.skip u) [ch]) ∨
      ∃ r xs d, c.rest = header ++ r ∧ SExpr.StandAfter source xs (c.skip header) d ∧
        (∀ x ∈ xs, Slot.topLevel.Accepts x) ∧ StuckAt source .topLevel d f := by
  rcases eval_andThen_fail h with hlang | ⟨u, c₁, hlang, hforms⟩
  · rcases eval_andThen_fail hlang with htext | ⟨u, c₀, -, htrivia⟩
    · obtain ⟨u, ch, s, r, hs, hr, -, hat⟩ := eval_text_fail htext
      exact Or.inl ⟨u, ch, s, r, hs, hr, hat⟩
    · exact absurd htrivia eval_trivia_ne_fail
  · obtain ⟨s, c₀, htext, htrivia⟩ := eval_andThen_ok hlang
    have hheader : header <+: c.rest := by
      by_cases hpre : header <+: c.rest
      · exact hpre
      · obtain ⟨g, hg⟩ := eval_text_of_not_isPrefix (rules.call source k) source hpre
        rw [hg] at htext
        cases htext
    rw [eval_text_of_isPrefix _ _ hheader, Outcome.ok.injEq] at htext
    obtain ⟨-, rfl⟩ := htext
    obtain ⟨xs, d, hxs, hall, hstuck⟩ := eval_forms_fail hforms
    obtain ⟨r, hr⟩ := hheader
    exact Or.inr ⟨r, xs, d, hr.symm, ⟨c₁, gap_of_eval_trivia htrivia, hxs⟩, hall, hstuck⟩

/-- A single expression fails where it is stuck, or where input is left over. -/
theorem eval_expressionParser_fail {allowTrailing : Bool}
    (h : (expressionParser allowTrailing).eval (rules.call source k) source c = .fail f) :
    (∃ d, c.Gap d ∧ StuckAt source .expr d f) ∨
      ∃ x d, allowTrailing = false ∧ SExpr.StandAfter source [x] c d ∧ Slot.expr.Accepts x ∧
        f.At d [] := by
  have hexpr : ∀ {f : Failure},
      (trivia.andThen expr).eval (rules.call source k) source c = .fail f →
        ∃ d, c.Gap d ∧ StuckAt source .expr d f := by
    intro f hf
    rcases eval_andThen_fail hf with htrivia | ⟨u, d, htrivia, hexpr⟩
    · exact absurd htrivia eval_trivia_ne_fail
    · exact ⟨d, gap_of_eval_trivia htrivia,
        (exprStuckAt_of_eval_expr (callsStuck source k) hexpr).stuckAt⟩
  cases allowTrailing with
  | true => exact Or.inl (hexpr h)
  | false =>
      rcases eval_followedBy_fail h with hp | ⟨e, d, hp, hend⟩
      · exact Or.inl (hexpr hp)
      · obtain ⟨u, c₁, htrivia, hread⟩ := eval_andThen_ok hp
        obtain ⟨x, m, hx, hmean, hskip⟩ := stands_of_eval_expr hread
        exact Or.inr ⟨x, d, rfl,
          ⟨c₁, gap_of_eval_trivia htrivia, m, d, hx, gap_of_eval_skip hskip, rfl⟩,
          ⟨e, hmean⟩, at_of_eval_eof hend⟩

end Grammar

end PieSyntax
