import PieSyntax.Proofs.Confined
import PieSyntax.Proofs.Stands

/-!
# Taking up trivia in the middle

Trivia that have been skipped from their first character have been skipped from every place in
between, and end there: what a comment has swallowed after its datum is what would be skipped
without the comment.

The reverse holds up to the ceiling only.  The trivia after a datum that is commented out are skipped
one level further down, and so is the next comment.  So comments nest, although none stands inside
another one, and a row of them is skipped by as many levels as it has comments.

## Main results

* `Grammar.eval_trivia_comment` — a comment, and the trivia after its datum.
* `Grammar.eval_trivia_of_gap` — trivia that were skipped are skipped from the other end of a gap.
-/

namespace PieSyntax

namespace Grammar

open PieSyntax.Parser

variable {source : String} {k : Nat} {c d e : Cursor}

/-! ## One piece -/

/-- After a piece of trivia the others are skipped. -/
theorem eval_trivia_of_item {u : Unit}
    (h : triviaItem.eval (rules.call source k) source c = .ok u d) :
    trivia.eval (rules.call source k) source c = trivia.eval (rules.call source k) source d := by
  have hcall := rules.call_reaches source k
  have hlt := consumes_triviaItem c u d h
  have hne := (reaches_of_eval hcall h).offset_ne hlt
  show ((triviaItem.many).eval (rules.call source k) source c).andThen _ =
    ((triviaItem.many).eval (rules.call source k) source d).andThen _
  rw [eval_many_next hcall h hne]
  cases (triviaItem.many).eval (rules.call source k) source d with
  | ok us e => rfl
  | fail f => rfl
  | interrupted why => rfl

/-- A piece that is broken off. -/
theorem eval_trivia_of_interrupted {why : Interruption}
    (h : triviaItem.eval (rules.call source k) source c = .interrupted why) :
    trivia.eval (rules.call source k) source c = .interrupted why := by
  show ((triviaItem.many).eval (rules.call source k) source c).andThen _ = _
  rw [eval_many_of_interrupted (rules.call_reaches source k) h, Outcome.andThen_interrupted]

/-- A piece of trivia that goes down no level. -/
theorem eval_trivia_of_returns
    (h : Returns (rules.call source k) source (.empty False) triviaItem c () d) :
    trivia.eval (rules.call source k) source c = trivia.eval (rules.call source k) source d :=
  eval_trivia_of_item h.eval_ok

/-! ## Comments -/

/-- Where trivia have been skipped on a lower level, there are none. -/
theorem eval_trivia_of_eval_skip (h : skip.eval (rules.call source k) source c = .ok () d) :
    trivia.eval (rules.call source k) source d = .ok () d := by
  obtain ⟨j, rfl, hj⟩ := eval_skip_ok h
  have hstuck := ((skipsTrivia source j).1 c d hj).2
  exact eval_trivia_of_stuck (stuck_succ hstuck)

/-- A comment ends after its datum and the trivia there, which are skipped one level further down;
it is nested too deeply if they are. -/
theorem eval_trivia_comment {s s₁ s₂ : Text} (hbefore : Dropped .trivia s s₁)
    (hdatum : Dropped .datum s₁ s₂) (hc : c.rest = '#' :: ';' :: s) :
    ∃ m, c.Reaches m ∧ m.rest = s₂ ∧
      (trivia.eval (rules.call source k) source c = .interrupted .tooDeep ∨
        ∃ d, skip.eval (rules.call source k) source m = .ok () d ∧
          trivia.eval (rules.call source k) source c = .ok () d) := by
  obtain ⟨u₁, hu₁⟩ := hbefore.suffix
  obtain ⟨u₂, hu₂⟩ := hdatum.suffix
  have hmark : c.rest = "#;".toList ++ s := hc
  have hr₀ := Cursor.rest_skip hmark
  have hr₁ := Cursor.rest_skip (hr₀.trans hu₁)
  have hr₂ := Cursor.rest_skip (hr₁.trans hu₂)
  have hreach₁ := Cursor.reaches_skip (hr₀.trans hu₁)
  have hreach₂ := Cursor.reaches_skip (hr₁.trans hu₂)
  have hreach := ((Cursor.reaches_skip hmark).trans hreach₁).trans hreach₂
  refine ⟨_, hreach, hr₂, ?_⟩
  have hskipped : Returns (rules.call source k) source (.empty True) skip
      (c.skip "#;".toList) () ((c.skip "#;".toList).skip u₁) :=
    (readable_of_dropped hbefore).returns hr₀ hr₁ hreach₁
      (Clear.of_solid hdatum.solid.1 hdatum.solid.2) (Or.inl trivial)
  have hread : Reads (rules.call source k) source (.empty True) skip anyDatum
      ((c.skip "#;".toList).skip u₁) () (((c.skip "#;".toList).skip u₁).skip u₂) :=
    readable_of_dropped hdatum k _ _ hr₁ hr₂ hreach₂ (fun _ v hv => hv) (Or.inl trivial)
  generalize ((c.skip "#;".toList).skip u₁).skip u₂ = m at hread ⊢
  have hitem := reads_comment hc hskipped hread
  rcases hitem with ⟨-, hcut⟩ | hfollows
  · have htooDeep := hcut [] rfl
    rw [Cursor.before_nil] at htooDeep
    exact Or.inl (eval_trivia_of_interrupted htooDeep)
  · have hends := hfollows [] rfl
    rw [Cursor.before_nil, Cursor.before_nil] at hends
    rcases eval_skip_ok_or_tooDeep source k m with ⟨d, hd⟩ | htooDeep
    · refine Or.inr ⟨d, hd, ?_⟩
      rw [eval_trivia_of_item (hends.ok d hd)]
      exact eval_trivia_of_eval_skip hd
    · exact Or.inl (eval_trivia_of_interrupted (hends.tooDeep htooDeep))

/-! ## Gaps -/

/-- Under a higher ceiling the same trivia are skipped. -/
theorem eval_trivia_mono {j : Nat} (hjk : j ≤ k)
    (h : trivia.eval (rules.call source j) source c = .ok () d) :
    trivia.eval (rules.call source k) source c = .ok () d := by
  have hup := Parser.eval_upTo (rules.call_upTo source hjk) source trivia c
  rw [h] at hup
  exact (hup.eq (by simp)).symm

/-- Trivia that come next, and then those from the other end of the gap. -/
def Resumes (source : String) (s s' : Text) : Prop :=
  ∀ (k : Nat) (c d e : Cursor), c.rest = s → e.rest = s' → c.Reaches e →
    trivia.eval (rules.call source k) source c = .ok () d →
      trivia.eval (rules.call source k) source e = .ok () d

/-- A piece of trivia that goes down no level, and those after it. -/
theorem Resumes.piece {u s s' : Text} (hsuffix : ∃ w, s = w ++ s')
    (hitem : ∀ (k : Nat) (c : Cursor), c.rest = u ++ s →
      Returns (rules.call source k) source (.empty False) triviaItem c () (c.skip u))
    (h : Resumes source s s') : Resumes source (u ++ s) s' := by
  intro k c d e hc he hce hrun
  obtain ⟨w, hw⟩ := hsuffix
  have hreach : (c.skip u).Reaches e := hce.of_skip hc (he ▸ hw)
  rw [eval_trivia_of_returns (hitem k c hc)] at hrun
  exact h k (c.skip u) d e (Cursor.rest_skip hc) he hreach hrun

theorem resumes_of_dropped {x : Extent} {s s' : Text} (h : Dropped x s s') (hx : x = .trivia) :
    Resumes source s s' := by
  induction h with
  | none s =>
      intro k c d e hc he hce hrun
      rw [hce.eq_of_rest (he.trans hc.symm)]
      exact hrun
  | @white ch s s' hch h ih =>
      exact Resumes.piece (u := [ch]) h.suffix (fun k c hc => returns_white hch hc) (ih rfl)
  | @line body s s' hbody h ih =>
      have hsplit : ';' :: (body ++ '\n' :: s) = (';' :: (body ++ ['\n'])) ++ s := by simp
      rw [hsplit]
      exact Resumes.piece h.suffix (fun k c hc => returns_line hbody (hc.trans hsplit.symm)) (ih rfl)
  | @lastLine body hbody =>
      intro k c d e hc he hce hrun
      have hrest : c.rest = (';' :: body) ++ [] := by rw [hc, List.append_nil]
      have hreach : (c.skip (';' :: body)).Reaches e := hce.of_skip hrest (w := []) he.symm
      have hsame := hreach.eq_of_rest (he.trans (Cursor.rest_skip hrest).symm)
      have hitem : Returns (rules.call source k) source (.empty False) triviaItem c ()
          (c.skip (';' :: body)) := returns_lastLine hbody hc fun v hv => hv
      rw [eval_trivia_of_returns hitem] at hrun
      rw [hsame]
      exact hrun
  | @comment s s₁ s₂ s' hbefore hdatum hafter _ _ ih =>
      intro k c d e hc he hce hrun
      obtain ⟨m, ⟨u, hu⟩, hm, hends⟩ := eval_trivia_comment hbefore hdatum hc (k := k)
      obtain ⟨w, hw⟩ := hafter.suffix
      have hreach : m.Reaches e := by
        have hskip := hce.of_skip hu.rest (w := w) (by rw [hm, he, hw])
        rw [← hu.eq_skip] at hskip
        exact hskip
      rcases hends with htooDeep | ⟨d', hskip, hok⟩
      · rw [htooDeep] at hrun
        cases hrun
      · obtain rfl : d' = d := by
          rw [hok] at hrun
          cases hrun
          rfl
        -- The trivia after the datum are taken up on the level where the comment skipped them.
        obtain ⟨j, rfl, hlower⟩ := eval_skip_ok hskip
        have hrest := ih rfl j m d' e hm he hreach hlower
        exact eval_trivia_mono (Nat.le_succ j) hrest
  | word h => cases hx
  | digits h => cases hx
  | group h₁ h₂ => cases hx
  | nil s => cases hx
  | cons h₁ h₂ h₃ => cases hx

/-- Trivia that were skipped are skipped from the other end of a gap. -/
theorem eval_trivia_of_gap (h : c.Gap e)
    (hrun : trivia.eval (rules.call source k) source c = .ok () d) :
    trivia.eval (rules.call source k) source e = .ok () d :=
  resumes_of_dropped h.dropped rfl k c d e rfl rfl h.reaches hrun

end Grammar

end PieSyntax
