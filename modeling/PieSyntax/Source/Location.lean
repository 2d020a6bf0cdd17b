import PieSyntax.Text.Basic

/-!
# Positions and locations in a source text

A position is a line and a column, both counted from one.  Only a newline ends a line, and
every other character, whatever its width on a screen, takes one column.  Coordinates are
integers, so that a position may also be given by hand and compared.

`advance` crosses a whole text at once: the newlines give the line, and the characters after
the last of them give the column.

A location is the half-open span between two positions of one source.  Spans of different
sources cannot be joined: `Location.join` says so with the names of the two.

## Main results

* `advance_eq_foldl` — crossing a text at once is crossing its characters one by one.
* `advance_append` — crossing two texts is crossing the one and then the other.
* `lt_advance` — every text but the empty one leads to a later position.
-/

namespace PieSyntax

/-- A place in a source text, by line and column. -/
structure Position where
  line : Int
  column : Int
  deriving DecidableEq, Repr, Inhabited

namespace Position

/-- The place where every text starts. -/
def start : Position := ⟨1, 1⟩

/-! ## Order -/

/-- Positions are ordered by line first, and within a line by column. -/
instance : LT Position where
  lt p q := p.line < q.line ∨ (p.line = q.line ∧ p.column < q.column)

instance : LE Position where
  le p q := p < q ∨ p = q

theorem lt_def (p q : Position) :
    p < q ↔ p.line < q.line ∨ (p.line = q.line ∧ p.column < q.column) := Iff.rfl

theorem le_def (p q : Position) : p ≤ q ↔ p < q ∨ p = q := Iff.rfl

instance (p q : Position) : Decidable (p < q) :=
  inferInstanceAs (Decidable (p.line < q.line ∨ (p.line = q.line ∧ p.column < q.column)))

instance (p q : Position) : Decidable (p ≤ q) :=
  inferInstanceAs (Decidable (p < q ∨ p = q))

theorem lt_irrefl (p : Position) : ¬ p < p := by
  simp [lt_def]

theorem lt_trans {p q r : Position} (hpq : p < q) (hqr : q < r) : p < r := by
  rw [lt_def] at *; omega

theorem lt_trichotomy (p q : Position) : p < q ∨ p = q ∨ q < p := by
  cases p; cases q
  simp only [lt_def, Position.mk.injEq]
  omega

/-! ## Moving across text -/

/-- The place after one character: a newline opens the next line. -/
def advanceChar (p : Position) (c : Char) : Position :=
  if c = '\n' then ⟨p.line + 1, 1⟩ else ⟨p.line, p.column + 1⟩

@[simp] theorem advanceChar_newline (p : Position) : p.advanceChar '\n' = ⟨p.line + 1, 1⟩ := rfl

theorem advanceChar_of_ne {c : Char} (h : c ≠ '\n') (p : Position) :
    p.advanceChar c = ⟨p.line, p.column + 1⟩ := if_neg h

/-- The characters after the last newline of a text: all of them when it has none. -/
def lastLine (text : Text) : Text := (text.reverse.takeWhile (· ≠ '\n')).reverse

/-- The place after a whole text.  A text on one line moves the column only; otherwise its last
line decides the column. -/
def advance (p : Position) (text : Text) : Position :=
  if '\n' ∈ text then ⟨p.line + text.count '\n', 1 + (lastLine text).length⟩
  else ⟨p.line, p.column + text.length⟩

@[simp] theorem advance_nil (p : Position) : p.advance [] = p := by
  simp [advance]

private theorem takeWhile_append_of_mem {α : Type} {p : α → Bool} {l : List α} {a : α}
    (ha : a ∈ l) (hp : p a = false) (m : List α) :
    (l ++ m).takeWhile p = l.takeWhile p := by
  induction l with
  | nil => simp at ha
  | cons b l ih =>
    rw [List.cons_append, List.takeWhile_cons, List.takeWhile_cons]
    split
    · rename_i hb
      rcases List.mem_cons.mp ha with rfl | ha
      · simp [hp] at hb
      · rw [ih ha]
    · rfl

/-- Characters before a newline do not belong to the last line. -/
theorem lastLine_append_of_mem {text : Text} (h : '\n' ∈ text) (before : Text) :
    lastLine (before ++ text) = lastLine text := by
  simp only [lastLine, List.reverse_append]
  rw [takeWhile_append_of_mem (List.mem_reverse.mpr h) (by simp)]

/-- Characters that are not newlines extend the last line. -/
theorem lastLine_append_of_not_mem {text : Text} (h : '\n' ∉ text) (before : Text) :
    lastLine (before ++ text) = lastLine before ++ text := by
  have hall : ∀ c ∈ text.reverse, (decide (c ≠ '\n')) = true := fun c hc =>
    decide_eq_true fun e => h (e ▸ List.mem_reverse.mp hc)
  rw [lastLine, List.reverse_append, List.takeWhile_append_of_pos hall, List.reverse_append,
    List.reverse_reverse, lastLine]

@[simp] theorem lastLine_newline_cons {text : Text} (h : '\n' ∉ text) :
    lastLine ('\n' :: text) = text :=
  lastLine_append_of_not_mem h ['\n']

/-- Crossing a text crosses its first character and then the others. -/
theorem advance_cons (p : Position) (c : Char) (text : Text) :
    p.advance (c :: text) = (p.advanceChar c).advance text := by
  by_cases ht : '\n' ∈ text
  · have hl := lastLine_append_of_mem ht [c]
    by_cases hc : c = '\n'
    · subst hc
      simp_all [advance]
      omega
    · have hc' : ¬ '\n' = c := fun h => hc h.symm
      simp_all [advance, advanceChar]
  · by_cases hc : c = '\n'
    · subst hc
      simp_all [advance, List.count_eq_zero_of_not_mem]
    · have hc' : ¬ '\n' = c := fun h => hc h.symm
      simp_all [advance, advanceChar]
      omega

/-- Crossing a text is crossing its characters one by one. -/
theorem advance_eq_foldl (p : Position) (text : Text) :
    p.advance text = text.foldl advanceChar p := by
  induction text generalizing p with
  | nil => simp
  | cons c text ih => rw [advance_cons, ih, List.foldl_cons]

theorem advance_append (p : Position) (a b : Text) :
    p.advance (a ++ b) = (p.advance a).advance b := by
  simp [advance_eq_foldl]

/-- Every character leads further. -/
theorem lt_advanceChar (p : Position) (c : Char) : p < p.advanceChar c := by
  rw [lt_def, advanceChar]
  split
  · exact Or.inl (Int.lt_succ p.line)
  · exact Or.inr ⟨rfl, Int.lt_succ p.column⟩

/-- Every text but the empty one leads further. -/
theorem lt_advance (p : Position) {text : Text} (h : text ≠ []) : p < p.advance text := by
  induction text generalizing p with
  | nil => exact absurd rfl h
  | cons c text ih =>
    rw [advance_cons]
    by_cases ht : text = []
    · rw [ht, advance_nil]
      exact lt_advanceChar p c
    · exact lt_trans (lt_advanceChar p c) (ih (p.advanceChar c) ht)

/-! ## Writing -/

/-- A position is written `line:column`. -/
def toText (p : Position) : String := toString p.line ++ ":" ++ toString p.column

instance : ToString Position := ⟨toText⟩

/-- The given positions in ascending order. -/
def sorted (ps : List Position) : List Position := ps.mergeSort (fun p q => decide (p ≤ q))

end Position

/-! ## Spans in a named source -/

/-- The span from `start` up to, but not including, `finish`, in the source named `source`. -/
structure Location where
  source : String
  start : Position
  finish : Position
  deriving DecidableEq, Repr, Inhabited

/-- The reason why two locations have no common span: they lie in different sources. -/
structure SourceMismatch where
  first : String
  last : String
  deriving DecidableEq, Repr

/-- The message for two locations that cannot be joined. -/
def SourceMismatch.message (m : SourceMismatch) : String :=
  "cannot span locations from " ++ quoted m.first ++ " and " ++ quoted m.last

namespace Location

/-- The location that runs from the start of `first` to the end of `last`. -/
def join (first last : Location) : Except SourceMismatch Location :=
  if first.source = last.source then .ok ⟨first.source, first.start, last.finish⟩
  else .error ⟨first.source, last.source⟩

theorem join_of_source_eq {first last : Location} (h : first.source = last.source) :
    first.join last = .ok ⟨first.source, first.start, last.finish⟩ := if_pos h

/-- A span is written as its two positions with a dash between. -/
def spanText (l : Location) : String := l.start.toText ++ "-" ++ l.finish.toText

end Location

/-- A value together with the place it was read from. -/
structure Located (α : Type) where
  loc : Location
  value : α
  deriving DecidableEq, Repr

namespace Located

/-- Changes the value and leaves it where it is. -/
def map {α β : Type} (f : α → β) (x : Located α) : Located β := ⟨x.loc, f x.value⟩

@[simp] theorem map_value {α β : Type} (f : α → β) (x : Located α) :
    (x.map f).value = f x.value := rfl

end Located

end PieSyntax
