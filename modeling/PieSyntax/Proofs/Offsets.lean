import PieSyntax.Proofs.Reach

/-!
# Positions and offsets

A line and a column say as much about a place in a text as the number of characters before it.  The
column starts again on every line, so this is not seen on the column; but a newline raises the line,
which is compared first, and so every character leads to a later position.  Positions of one text are
ordered as their offsets are, and rules that look at positions, such as the one of the furthest
failure, decide as though they looked at offsets.

A text is crossed at once by its newlines and its last line, and a cursor skips it at once.  Both come
to the place that single characters lead to.

## Main results

* `advance_take_lt`, `positionOf_lt_iff` — more characters lead to a later position.
* `Cursor.steps?_length` — a skip is made of single steps.
* `Failure.furthest_positionOf` — the furthest failure is the one at the larger offset.
* `positions_faithful` — positions are a faithful image of offsets.
-/

namespace PieSyntax

/-- More characters lead to a later position. -/
theorem advance_take_lt {s : Text} {i j : Nat} (h : i < j) (hj : j ≤ s.length) :
    Position.start.advance (s.take i) < Position.start.advance (s.take j) := by
  obtain ⟨n, rfl⟩ : ∃ n, j = i + n := ⟨j - i, by omega⟩
  rw [List.take_add, Position.advance_append]
  refine Position.lt_advance _ fun hnil => ?_
  have hlen := congrArg List.length hnil
  rw [List.length_take, List.length_drop, List.length_nil] at hlen
  omega

/-! ## The order of positions -/

/-- The position that the first `i` characters of a text lead to. -/
def positionOf (s : Text) (i : Nat) : Position := Position.start.advance (s.take i)

section Order

variable {s : Text} {i j : Nat}

theorem positionOf_lt_iff (hi : i ≤ s.length) (hj : j ≤ s.length) :
    positionOf s i < positionOf s j ↔ i < j := by
  refine ⟨fun h => ?_, fun h => advance_take_lt h hj⟩
  rcases Nat.lt_trichotomy i j with hlt | rfl | hgt
  · exact hlt
  · exact absurd h (Position.lt_irrefl _)
  · exact absurd (Position.lt_trans h (advance_take_lt hgt hi)) (Position.lt_irrefl _)

theorem positionOf_eq_iff (hi : i ≤ s.length) (hj : j ≤ s.length) :
    positionOf s i = positionOf s j ↔ i = j := by
  refine ⟨fun h => ?_, fun h => by rw [h]⟩
  have hij : ¬ i < j := by
    rw [← positionOf_lt_iff hi hj, h]
    exact Position.lt_irrefl _
  have hji : ¬ j < i := by
    rw [← positionOf_lt_iff hj hi, h]
    exact Position.lt_irrefl _
  omega

theorem positionOf_le_iff (hi : i ≤ s.length) (hj : j ≤ s.length) :
    positionOf s i ≤ positionOf s j ↔ i ≤ j := by
  rw [Position.le_def, positionOf_lt_iff hi hj, positionOf_eq_iff hi hj]
  omega

/-- Of two failures the one at the larger offset is kept; at one offset their payloads are merged. -/
theorem Failure.furthest_positionOf (hi : i ≤ s.length) (hj : j ≤ s.length) (e e' : Expectation) :
    Failure.furthest ⟨positionOf s i, e⟩ ⟨positionOf s j, e'⟩ =
      if i < j then ⟨positionOf s j, e'⟩
      else if j < i then ⟨positionOf s i, e⟩
      else ⟨positionOf s i, e.merge e'⟩ := by
  rcases Nat.lt_trichotomy i j with hlt | rfl | hgt
  · rw [if_pos hlt]
    exact furthest_of_lt (advance_take_lt hlt hj)
  · rw [if_neg (Nat.lt_irrefl i), if_neg (Nat.lt_irrefl i)]
    exact furthest_of_pos_eq rfl
  · rw [if_neg (by omega), if_pos hgt]
    exact furthest_of_gt (advance_take_lt hgt hi)

end Order

/-! ## Cursors -/

namespace Cursor

/-- Going on from a cursor on a text leads to the position of a later offset. -/
theorem At.advance_take {s : Text} {c : Cursor} (h : c.At s) (i : Nat) :
    c.pos.advance (c.rest.take i) = positionOf s (c.offset + i) := by
  rw [positionOf, List.take_add, Position.advance_append, ← h.2.2, ← h.2.1]

/-- The cursor after `n` single steps; there must be as many characters. -/
def steps? : Nat → Cursor → Option Cursor
  | 0, c => some c
  | n + 1, c => c.step?.bind (steps? n)

/-- Where a text comes next, skipping it leads to the same place as its characters one by one. -/
theorem steps?_length {c : Cursor} {s : Text} (h : s <+: c.rest) :
    c.steps? s.length = some (c.skip s) := by
  induction s generalizing c with
  | nil => rw [List.length_nil, steps?, skip_nil]
  | cons ch s ih =>
      obtain ⟨r, hr⟩ := h
      have hstep := step?_eq_skip hr.symm
      have hrest := rest_skip (u := [ch]) hr.symm
      have hnext : s <+: (c.skip [ch]).rest := ⟨r, hrest.symm⟩
      rw [List.length_cons, steps?, hstep, Option.bind_some, ih hnext, skip_skip,
        List.singleton_append]

end Cursor

/-! ## Positions for offsets -/

/-- From any position, crossing a text at once is crossing it character by character or in two parts,
and leads further.  Hence the positions of one text are compared as their offsets are, a skip is made
of single steps, and the furthest failure is the one at the larger offset. -/
theorem positions_faithful :
    (∀ (p : Position) (a b : Text),
      p.advance a = a.foldl Position.advanceChar p ∧
        (p.advance a).advance b = p.advance (a ++ b) ∧ (a ≠ [] → p < p.advance a)) ∧
    (∀ (s : Text) (i j : Nat), i ≤ s.length → j ≤ s.length →
      (positionOf s i < positionOf s j ↔ i < j) ∧ (positionOf s i = positionOf s j ↔ i = j) ∧
        (positionOf s i ≤ positionOf s j ↔ i ≤ j) ∧
        ∀ e e' : Expectation, Failure.furthest ⟨positionOf s i, e⟩ ⟨positionOf s j, e'⟩ =
          if i < j then ⟨positionOf s j, e'⟩
          else if j < i then ⟨positionOf s i, e⟩
          else ⟨positionOf s i, e.merge e'⟩) ∧
    ∀ (c : Cursor) (a : Text), a <+: c.rest → c.steps? a.length = some (c.skip a) ∧
      ∀ s, c.At s → (c.skip a).At s ∧ (c.skip a).pos = positionOf s (c.offset + a.length) := by
  refine ⟨fun p a b => ⟨p.advance_eq_foldl a, (p.advance_append a b).symm, p.lt_advance⟩,
    fun s i j hi hj => ⟨positionOf_lt_iff hi hj, positionOf_eq_iff hi hj, positionOf_le_iff hi hj,
      Failure.furthest_positionOf hi hj⟩,
    fun c a ha => ⟨Cursor.steps?_length ha, fun s hc => ?_⟩⟩
  have hskip := Cursor.skip_at hc ha
  exact ⟨hskip, hskip.2.2⟩

/-- The end of a line, the start of the next one and a place within it: they are told apart and
ordered, and skipping from the first to the last of them crosses the newline. -/
theorem positions_faithful_twoLines :
    positionOf "ab\ncd".toList 2 < positionOf "ab\ncd".toList 4 ∧
      Failure.furthest ⟨positionOf "ab\ncd".toList 2, .generic⟩
        ⟨positionOf "ab\ncd".toList 4, .endOfInput⟩ = ⟨⟨2, 2⟩, .endOfInput⟩ ∧
      Cursor.steps? 3 ⟨"\ncd".toList, 2, ⟨1, 3⟩⟩ = some ⟨[], 5, ⟨2, 3⟩⟩ ∧
      (⟨4, 9⟩ : Position) < Position.advance ⟨4, 9⟩ "\n".toList := by
  obtain ⟨hadvance, hoffsets, hcursor⟩ := positions_faithful
  have hplaces := hoffsets "ab\ncd".toList 2 4 (by decide) (by decide)
  refine ⟨hplaces.1.mpr (by decide), ?_, ?_, (hadvance ⟨4, 9⟩ "\n".toList []).2.2 (by decide)⟩
  · rw [hplaces.2.2.2, if_pos (by decide)]
    rfl
  · exact (hcursor ⟨"\ncd".toList, 2, ⟨1, 3⟩⟩ "\ncd".toList (List.prefix_refl _)).1

end PieSyntax
