import PieSyntax.Source.Location

/-!
# Cursors: progress through a text

A cursor holds what is left to read, how many characters lie behind it, and the position that
they lead to.  `At text` ties a cursor to the text it walks through: the rest is what remains
after `offset` characters, and the position is theirs.

Skipping is by count and by content: the offset grows by the length of the given text and the
position crosses it, whether or not it is what comes next.

## Main results

* `start_at`, `skip_at` — a cursor starts on its text, and skipping what comes next stays on it.
* `step?_eq_skip` — a step skips one character.
-/

namespace PieSyntax

/-- A place in a text that is being read. -/
structure Cursor where
  rest : Text
  offset : Nat
  pos : Position
  deriving DecidableEq, Repr

namespace Cursor

/-- The cursor at the start of a text. -/
def start (text : Text) : Cursor := ⟨text, 0, Position.start⟩

/-- Whether nothing is left to read. -/
def atEnd (c : Cursor) : Bool := c.rest.isEmpty

/-- The next character, if there is one. -/
def peek? (c : Cursor) : Option Char := c.rest.head?

/-- The cursor after the next character; there must be one. -/
def step? (c : Cursor) : Option Cursor :=
  match c.rest with
  | [] => none
  | ch :: rest => some ⟨rest, c.offset + 1, c.pos.advanceChar ch⟩

/-- The cursor moved by the length of `text`, as though `text` came next.  Past the end of the
input there is nothing left to read. -/
def skip (c : Cursor) (text : Text) : Cursor :=
  ⟨c.rest.drop text.length, c.offset + text.length, c.pos.advance text⟩

/-- The cursor stands at its offset in `text`, with the rest and the position that belong
there. -/
def At (text : Text) (c : Cursor) : Prop :=
  c.offset ≤ text.length ∧ c.rest = text.drop c.offset ∧
    c.pos = Position.start.advance (text.take c.offset)

instance (text : Text) (c : Cursor) : Decidable (c.At text) :=
  inferInstanceAs (Decidable (_ ∧ _ ∧ _))

theorem start_at (text : Text) : (start text).At text := by
  simp [At, start]

@[simp] theorem skip_nil (c : Cursor) : c.skip [] = c := by
  simp [skip]

theorem At.offset_add_length {text : Text} {c : Cursor} (h : c.At text) :
    c.offset + c.rest.length = text.length := by
  obtain ⟨hle, hrest, -⟩ := h
  rw [hrest, List.length_drop]
  omega

/-- Skipping what comes next stays on the text. -/
theorem skip_at {text s : Text} {c : Cursor} (h : c.At text) (hs : s <+: c.rest) :
    (c.skip s).At text := by
  obtain ⟨hle, hrest, hpos⟩ := h
  obtain ⟨rest, hs⟩ := hs
  have hlen : c.offset + (s ++ rest).length = text.length := by
    rw [hs, hrest, List.length_drop]
    omega
  have htake : text.take (c.offset + s.length) = text.take c.offset ++ s := by
    rw [List.take_add, ← hrest, ← hs, List.take_left]
  refine ⟨?_, ?_, ?_⟩
  · simp only [skip, List.length_append] at hlen ⊢
    omega
  · simp only [skip, hrest, List.drop_drop]
  · simp only [skip]
    rw [htake, Position.advance_append, ← hpos]

/-- A step skips one character. -/
theorem step?_eq_skip {c : Cursor} {ch : Char} {rest : Text} (h : c.rest = ch :: rest) :
    c.step? = some (c.skip [ch]) := by
  simp [step?, skip, h, Position.advance_cons]

end Cursor

end PieSyntax
