import PieSyntax.Proofs.Choices
import PieSyntax.Proofs.Resuming

/-!
# Trivia of maximal length

The trivia parser takes one piece after another and never gives one back.  That it stops where no
further piece comes does not yet make what it has taken the longest trivia: a datum comment might be
split in another way, and the trivia that begin so might go on.  They do not.  From wherever shorter
trivia end, the parser goes on to the same place (`Grammar.eval_trivia_of_gap`), so these are the first
part of the longest ones, and what is between the two is trivia again.

`Dropped .trivia s s'` is the definition of trivia that the parser is held against.  It is said of the
remaining text and of what is left of it, because words and numerals in it are of maximal length.

## Main results

* `Grammar.run_trivia_eq_ok_iff` — where the trivia parser stops.
* `Grammar.EndsInTrivia.run_upTo` — no trivia come after trivia, a token, an expression or a form.
* `spacing_longest` — the longest trivia are skipped, and none are left.
-/

namespace PieSyntax

namespace Grammar

variable {source : String} {k l : Nat} {c d e : Cursor} {α : Type} {p : PieParser α}

/-! ## The longest trivia -/

/-- Nothing but trivia is between the end of shorter trivia and that of the longest. -/
theorem gap_of_gap (h : trivia.eval (rules.call source k) source c = .ok () d) (he : c.Gap e) :
    e.Gap d :=
  gap_of_eval_trivia (eval_trivia_of_gap he h)

/-- Trivia are skipped, or they are nested too deeply. -/
theorem exists_run_trivia_eq_ok (h : rules.run k source trivia c ≠ .interrupted .tooDeep) :
    ∃ d, rules.run k source trivia c = .ok () d := by
  cases hrun : rules.run k source trivia c with
  | ok u d => exact ⟨d, rfl⟩
  | fail f => exact absurd hrun eval_trivia_ne_fail
  | interrupted why =>
      obtain rfl : why = .tooDeep := confined_trivia c why hrun
      exact absurd hrun h

/-- The trivia parser stops at the end of trivia, where nothing more is trivia. -/
theorem run_trivia_eq_ok_iff (h : rules.run k source trivia c ≠ .interrupted .tooDeep) :
    rules.run k source trivia c = .ok () d ↔
      c.Gap d ∧ ∀ s, Dropped .trivia d.rest s → s = d.rest := by
  constructor
  · intro hrun
    have hgap := gap_of_eval_trivia hrun
    refine ⟨hgap, fun s hs => ?_⟩
    obtain ⟨v, hv⟩ := hs.suffix
    have hreach := Cursor.reaches_skip hv
    have hrest := Cursor.rest_skip hv
    -- Trivia that begin at the end lead back to it.
    have hmore : d.Gap (d.skip v) := ⟨hreach, by rw [hrest]; exact hs⟩
    have hback := gap_of_gap (eval_trivia_of_gap hgap hrun) hmore
    have hle := hback.reaches.length_le
    rw [hrest, hv, List.length_append] at hle
    have hnil : v = [] := List.eq_nil_of_length_eq_zero (by omega)
    rw [hv, hnil, List.nil_append]
  · rintro ⟨hgap, hlast⟩
    obtain ⟨d', hrun⟩ := exists_run_trivia_eq_ok h
    have hmore := gap_of_gap hrun hgap
    rw [hrun, hmore.reaches.eq_of_rest (hlast _ hmore.dropped)]

/-- Where trivia are all that is left, they are all skipped. -/
theorem run_trivia_of_dropped_nil (h : rules.run k source trivia c ≠ .interrupted .tooDeep)
    (hall : Dropped .trivia c.rest []) :
    rules.run k source trivia c = .ok () (c.skip c.rest) := by
  have hrest : (c.skip c.rest).rest = [] := Cursor.rest_skip (List.append_nil _).symm
  refine (run_trivia_eq_ok_iff h).mpr
    ⟨⟨Cursor.reaches_skip (List.append_nil _).symm, by rw [hrest]; exact hall⟩, fun s hs => ?_⟩
  rw [hrest] at hs ⊢
  exact hs.nil_left

/-! ## After tokens and forms -/

/-- What takes the trivia after it along: trivia themselves, any token, an expression and a top-level
form. -/
inductive EndsInTrivia : {α : Type} → PieParser α → Prop where
  | trivia : EndsInTrivia trivia
  | token {α : Type} (p : PieParser α) : EndsInTrivia (lexeme skip p)
  | expr : EndsInTrivia expr
  | topLevel : EndsInTrivia topLevel

/-- There are no trivia after what takes them along. -/
theorem EndsInTrivia.eval_trivia (h : EndsInTrivia p) {a : α}
    (hok : p.eval (rules.call source k) source c = .ok a d) :
    Grammar.trivia.eval (rules.call source k) source d = .ok () d := by
  cases h with
  | trivia => exact eval_trivia_of_gap (gap_of_eval_trivia hok) hok
  | token p =>
      obtain ⟨m, -, -, hskip⟩ := eval_lexeme_ok hok
      exact eval_trivia_of_eval_skip hskip
  | expr =>
      obtain ⟨x, m, -, -, hskip⟩ := stands_of_eval_expr hok
      exact eval_trivia_of_eval_skip hskip
  | topLevel =>
      obtain ⟨x, m, -, -, hskip⟩ := stands_of_eval_topLevel hok
      exact eval_trivia_of_eval_skip hskip

/-- Under no ceiling are there any. -/
theorem EndsInTrivia.run_upTo (h : EndsInTrivia p) {a : α} (hok : rules.run k source p c = .ok a d)
    (l : Nat) : (rules.run l source Grammar.trivia d).UpTo (.ok () d) := by
  have hnone : rules.run k source Grammar.trivia d = .ok () d := h.eval_trivia hok
  rcases Nat.le_total l k with hle | hle
  · have hup := rules.run_upTo hle source Grammar.trivia d
    rwa [hnone] at hup
  · exact Or.inr (eval_trivia_mono hle hnone)

end Grammar

/-- The longest trivia are skipped, and trivia that end earlier are their first part.  So none are
left, neither there nor after a token, an expression or a form.  Nesting is the one thing in the way,
and with more of it than there are characters it is not. -/
theorem spacing_longest (source : String) :
    (∀ (text : Text) (c : Cursor) (k : Nat), c.At text →
      Grammar.rules.run k source Grammar.trivia c ≠ .interrupted .tooDeep →
        ∃ u d, Grammar.rules.run k source Grammar.trivia c = .ok () d ∧ Cursor.Passes u c d ∧
          d.At text ∧ Dropped .trivia c.rest d.rest ∧
          ∀ v s, c.rest = v ++ s → Dropped .trivia c.rest s →
            v.length ≤ u.length ∧ Dropped .trivia s d.rest) ∧
    (∀ {α : Type} (p : PieParser α), Grammar.EndsInTrivia p → ∀ c k a d,
      Grammar.rules.run k source p c = .ok a d →
        ∀ l, (Grammar.rules.run l source Grammar.trivia d).UpTo (.ok () d)) ∧
    ∀ (c : Cursor) (k : Nat), c.rest.length + 1 < k →
      Grammar.rules.run k source Grammar.trivia c ≠ .interrupted .tooDeep := by
  refine ⟨fun text c k hc hbelow => ?_, fun p hp c k a d hok => hp.run_upTo hok,
    fun c k hk => Grammar.Tamed.ne_tooDeep Grammar.tamed_trivia hk⟩
  obtain ⟨d, hrun⟩ := Grammar.exists_run_trivia_eq_ok hbelow
  obtain ⟨⟨u, hu⟩, hdropped⟩ := Grammar.gap_of_eval_trivia hrun
  refine ⟨u, d, hrun, hu, hu.at hc, hdropped, fun v s hv hs => ?_⟩
  have hrest := Cursor.rest_skip hv
  have hgap : c.Gap (c.skip v) := ⟨Cursor.reaches_skip hv, by rw [hrest]; exact hs⟩
  have hmore := Grammar.gap_of_gap hrun hgap
  have hle := hmore.reaches.length_le
  have hlen := congrArg List.length (hv.symm.trans hu.rest)
  rw [hrest] at hle
  simp only [List.length_append] at hlen
  refine ⟨by omega, ?_⟩
  have hbetween := hmore.dropped
  rw [hrest] at hbetween
  exact hbetween

/-- Trivia before a group that is not closed. -/
def nestedComments : Text := "#;#;a b ; c\n#;(".toList

/-- Of nested comments all are skipped but the one that has no datum, here and after a name. -/
theorem longest_nestedComments :
    (∃ d, Grammar.rules.run nestingCeiling memorySource Grammar.trivia (.start nestedComments) =
        .ok () d ∧ d.rest = "#;(".toList ∧
      ∀ v s, nestedComments = v ++ s → Dropped .trivia nestedComments s → v.length ≤ 12) ∧
    ∃ e d, Grammar.rules.run nestingCeiling memorySource Grammar.expr (.start "x #;(".toList) =
        .ok e d ∧ d.rest = "#;(".toList ∧
      ∀ l, (Grammar.rules.run l memorySource Grammar.trivia d).UpTo (.ok () d) := by
  obtain ⟨hlongest, hends, hroom⟩ := spacing_longest memorySource
  constructor
  · obtain ⟨_, hrun⟩ := exists_ok_of_reached? (d := ⟨"#;(".toList, 12, ⟨2, 1⟩⟩)
      (o := Grammar.rules.run nestingCeiling memorySource Grammar.trivia (.start nestedComments))
      (by decide +kernel)
    have hbelow := hroom (.start nestedComments) nestingCeiling (by decide)
    obtain ⟨u, d, hok, hu, -, -, hmax⟩ :=
      hlongest nestedComments (.start nestedComments) nestingCeiling (Cursor.start_at _) hbelow
    cases hrun.symm.trans hok
    refine ⟨_, hrun, rfl, fun v s hv hs => ?_⟩
    have hle := (hmax v s hv hs).1
    have hlen : 12 = 0 + u.length := hu.offset
    omega
  · obtain ⟨e, hname⟩ := exists_ok_of_reached? (d := ⟨"#;(".toList, 2, ⟨1, 3⟩⟩)
      (o := Grammar.rules.run nestingCeiling memorySource Grammar.expr (.start "x #;(".toList))
      (by decide +kernel)
    exact ⟨e, _, hname, rfl, hends Grammar.expr .expr _ _ e _ hname⟩

end PieSyntax
