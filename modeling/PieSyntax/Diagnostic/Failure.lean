import PieSyntax.Diagnostic.Expectation
import PieSyntax.Source.Location

/-!
# Failures, the rule of the furthest one, and reports

A failure is a payload at a position.  When several alternatives fail, the one that got furthest
into the text is the most useful to report; failures at one place combine their payloads.

A report names the source, the failure and, where they are known, the text that was read and a
reason from outside the grammar.  Leftover input and input that ran out share one payload; the
text tells them apart, because only leftover input is reported before its end.

## Main results

* `furthest_assoc`, `furthest_comm`, `furthest_self` — the rule does not depend on how the
  alternatives are arranged.
-/

namespace PieSyntax

/-- A failed parse: where it stopped, and what was wrong there. -/
structure Failure where
  pos : Position
  expectation : Expectation

namespace Failure

/-- The failure that reached deeper; at one place, the two payloads merged. -/
def furthest (f g : Failure) : Failure :=
  if g.pos < f.pos then f
  else if f.pos < g.pos then g
  else ⟨f.pos, f.expectation.merge g.expectation⟩

theorem furthest_of_lt {f g : Failure} (h : f.pos < g.pos) : furthest f g = g := by
  have : ¬ g.pos < f.pos := fun h' => Position.lt_irrefl _ (Position.lt_trans h h')
  simp [furthest, h, this]

theorem furthest_of_gt {f g : Failure} (h : g.pos < f.pos) : furthest f g = f := by
  simp [furthest, h]

theorem furthest_of_pos_eq {f g : Failure} (h : f.pos = g.pos) :
    furthest f g = ⟨f.pos, f.expectation.merge g.expectation⟩ := by
  simp [furthest, h, Position.lt_irrefl]

theorem furthest_self (f : Failure) : furthest f f = f := by
  rw [furthest_of_pos_eq rfl, Expectation.merge_self]

theorem furthest_comm (f g : Failure) : furthest f g = furthest g f := by
  rcases Position.lt_trichotomy f.pos g.pos with h | h | h
  · rw [furthest_of_lt h, furthest_of_gt h]
  · rw [furthest_of_pos_eq h, furthest_of_pos_eq h.symm, h, Expectation.merge_comm]
  · rw [furthest_of_gt h, furthest_of_lt h]

theorem furthest_assoc (f g h : Failure) :
    furthest (furthest f g) h = furthest f (furthest g h) := by
  rcases Position.lt_trichotomy f.pos g.pos with hfg | hfg | hfg <;>
    rcases Position.lt_trichotomy g.pos h.pos with hgh | hgh | hgh
  · rw [furthest_of_lt hfg, furthest_of_lt hgh, furthest_of_lt (Position.lt_trans hfg hgh)]
  · rw [furthest_of_lt hfg, furthest_of_pos_eq hgh]
    exact (furthest_of_lt (by exact hfg)).symm
  · rw [furthest_of_lt hfg, furthest_of_gt hgh, furthest_of_lt hfg]
  · have hfh : f.pos < h.pos := by rw [hfg]; exact hgh
    rw [furthest_of_pos_eq hfg, furthest_of_lt hgh, furthest_of_lt hfh]
    exact furthest_of_lt (by exact hfh)
  · rw [furthest_of_pos_eq hfg, furthest_of_pos_eq hgh]
    refine (furthest_of_pos_eq (by exact hfg.trans hgh)).trans ?_
    rw [Expectation.merge_assoc]
    exact (furthest_of_pos_eq (g := ⟨g.pos, g.expectation.merge h.expectation⟩) hfg).symm
  · have hhf : h.pos < f.pos := by rw [hfg]; exact hgh
    rw [furthest_of_pos_eq hfg, furthest_of_gt hgh, furthest_of_pos_eq hfg]
    exact furthest_of_gt (by exact hhf)
  · rw [furthest_of_gt hfg, furthest_of_lt hgh]
  · have hhf : h.pos < f.pos := by rw [← hgh]; exact hfg
    rw [furthest_of_gt hfg, furthest_of_pos_eq hgh, furthest_of_gt hhf]
    exact (furthest_of_gt (by exact hfg)).symm
  · rw [furthest_of_gt hfg, furthest_of_gt hgh, furthest_of_gt hfg,
      furthest_of_gt (Position.lt_trans hgh hfg)]

end Failure

/-! ## Reports -/

/-- A failed parse, as it is shown to a user. -/
structure Report where
  source : String
  failure : Failure
  /-- The text that was read, when it is known. -/
  text : Option Text
  /-- Replaces the message of the failure. -/
  detail : Option String

namespace Report

/-- Whether the failure lies before the end of a known text. -/
def beforeEnd (r : Report) : Bool :=
  match r.text with
  | some text => decide (r.failure.pos < Position.start.advance text)
  | none => false

/-- What went wrong, without the place. -/
def message (r : Report) : String :=
  match r.detail with
  | some reason => reason
  | none =>
    match r.failure.expectation with
    | .endOfInput =>
      if r.beforeEnd then "expected end of input" else r.failure.expectation.describe
    | e => e.describe

/-- The report as one line: `source:line:column: message`. -/
def toText (r : Report) : String :=
  r.source ++ ":" ++ r.failure.pos.toText ++ ": " ++ r.message

end Report

end PieSyntax
