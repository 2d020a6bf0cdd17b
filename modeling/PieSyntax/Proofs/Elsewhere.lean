import PieSyntax.Proofs.Spans
import PieSyntax.Proofs.Success

/-!
# Any parser run elsewhere

A cursor means no more than the text that is left and the position it stands at, whatever the parser
that is run from it.  When the same text is left at two cursors, of two texts, the runs from them end
alike, and what the one returns is what the other returns with its locations carried over.

This cannot hold of a parser that looks into the locations it gets.  Values with locations inside
are `Relocatable`; a parser is `Portable` between two cursors when its functions, applied to a value
with its locations carried over, only return the same with its locations carried over.

## Main results

* `Parser.Carried.map`, `Parser.Carried.guard`, `Parser.Carried.bind`, … — portable parsers are built
  from functions that go along with carrying.
* `Rules.run_elsewhere` — portable parsers run elsewhere.
-/

namespace PieSyntax

/-! ## Values with locations inside -/

/-- Values whose locations can be changed, all of them by the same function. -/
class Relocatable (α : Type) where
  relocate : (Location → Location) → α → α

export Relocatable (relocate)

instance : Relocatable Unit := ⟨fun _ u => u⟩

instance : Relocatable Char := ⟨fun _ c => c⟩

instance {α : Type} [Relocatable α] : Relocatable (List α) := ⟨fun f as => as.map (relocate f)⟩

instance {α : Type} [Relocatable α] : Relocatable (Located α) :=
  ⟨fun f x => ⟨f x.loc, relocate f x.value⟩⟩

instance : Relocatable Node := ⟨Node.relocate⟩

instance : Relocatable Statement := ⟨Statement.relocate⟩

instance (n : Production) : Relocatable n.Result :=
  match n with
  | .spacing => inferInstanceAs (Relocatable Unit)
  | .datum => inferInstanceAs (Relocatable Unit)
  | .expr => inferInstanceAs (Relocatable Expr)

@[simp] theorem relocate_expr (f : Location → Location) (e : Expr) :
    relocate f e = relocateExpr f e := by
  obtain ⟨loc, node⟩ := e
  rw [relocateExpr]
  rfl

/-! ## Portable parsers -/

section Portable

variable {N : Type} {R : N → Type} [∀ n, Relocatable (R n)] {α β : Type} [Relocatable α]
variable [Relocatable β]

/-- The second parser is built as the first one is, with the locations inside carried over. -/
def Parser.Carried (c c' : Cursor) (p q : Parser N R α) : Prop :=
  Parser.Related (Tracking.translation c c') (fun _ a a' => a' = relocate (c.carry c') a)
    (fun a a' => a' = relocate (c.carry c') a) p q

/-- The parser makes nothing else of values with their locations carried over than of the values
themselves. -/
def Parser.Portable (c c' : Cursor) (p : Parser N R α) : Prop := p.Carried c c' p

namespace Parser

variable {c c' : Cursor} {p q : Parser N R α}

/-- A nonterminal is called alike wherever it is called. -/
theorem Portable.call (n : N) : (Parser.call n : Parser N R (R n)).Portable c c' := Related.call n

/-- A function may be applied to what was read if it only carries what it is given carried. -/
theorem Carried.map (h : p.Carried c c' q) {f g : α → β}
    (hf : ∀ a, g (relocate (c.carry c') a) = relocate (c.carry c') (f a)) :
    (p.map f).Carried c c' (q.map g) := by
  refine Related.map h ?_
  intro a a' ha
  rw [ha]
  exact hf a

/-- A test may look at anything but locations. -/
theorem Carried.guard (h : p.Carried c c' q) {test : α → Bool} (e : Expectation)
    (ht : ∀ a, test (relocate (c.carry c') a) = test a) :
    (p.guard test e).Carried c c' (q.guard test e) := by
  refine Related.guard h e ?_
  intro a a' ha
  rw [ha]
  exact (ht a).symm

/-- What follows may depend on what was read if it only carries what it is given carried. -/
theorem Carried.bind (h : p.Carried c c' q) {f g : α → Parser N R β}
    (hf : ∀ a, (f a).Carried c c' (g (relocate (c.carry c') a))) :
    (p.bind f).Carried c c' (q.bind g) := by
  refine Related.bind h ?_
  intro a a' ha
  rw [ha]
  exact hf a

theorem Carried.many (h : p.Carried c c' q) : p.many.Carried c c' q.many :=
  (Related.many h).mono fun _ _ has => eq_map_of_forall₂ has

/-- The place of what was read is carried along. -/
theorem Carried.located (h : p.Carried c c' q) : p.located.Carried c c' q.located := by
  refine (Related.located h).mono ?_
  rintro ⟨loc, a⟩ ⟨loc', a'⟩ ⟨hspans, ha⟩
  simp only at hspans ha
  rw [ha, Tracking.eq_of_spans hspans]
  rfl

end Parser

end Portable

/-! ## Runs -/

/-- The second run ends as the first one does: with the value carried over and the same text left,
with the same failure at the position carried over, or broken off for the same reason. -/
inductive Outcome.Carried {α : Type} [Relocatable α] (text text' : Text) (c c' : Cursor) :
    Outcome α → Outcome α → Prop where
  | ok {a : α} {d d' : Cursor} (hd : d.At text) (hd' : d'.At text') (hrest : d'.rest = d.rest)
    (hpos : d'.pos = Position.translate c.pos c'.pos d.pos) :
    Carried text text' c c' (.ok a d) (.ok (relocate (c.carry c') a) d')
  | fail (pos : Position) (e : Expectation) :
    Carried text text' c c' (.fail ⟨pos, e⟩) (.fail ⟨Position.translate c.pos c'.pos pos, e⟩)
  | stalled (loop : Repetition) (label : String) (pos : Position) :
    Carried text text' c c' (.interrupted (.stalled loop label pos))
      (.interrupted (.stalled loop label (Position.translate c.pos c'.pos pos)))
  | interrupted (why : Interruption) (h : ∀ loop label pos, why ≠ .stalled loop label pos) :
    Carried text text' c c' (.interrupted why) (.interrupted why)

variable {N : Type} {R : N → Type} [∀ n, Relocatable (R n)] {α : Type} [Relocatable α]

/-- From cursors with the same text left, of two texts, runs of a portable parser over portable rules
end alike: positions are moved by the difference of the lines, and on the line where the runs start by
the difference of the columns. -/
theorem Rules.run_elsewhere {text text' : Text} {c c' : Cursor} (hc : c.At text)
    (hc' : c'.At text') (hrest : c'.rest = c.rest) {rules : Rules N R}
    (hrules : ∀ n, (rules n).Portable c c') {p : Parser N R α} (hp : p.Portable c c')
    (ceiling : Nat) (source : String) :
    Outcome.Carried text text' c c' (rules.run ceiling source p c)
      (rules.run ceiling source p c') := by
  have hrel := Rules.run_related hrules ceiling source hp (Tracking.translation_start hrest)
  have hahead := rules.run_reaches ceiling source p c
  have hahead' := rules.run_reaches ceiling source p c'
  generalize rules.run ceiling source p c = o at hrel hahead
  generalize rules.run ceiling source p c' = o' at hrel hahead'
  cases hrel with
  | @ok a a' d d' ha hd =>
      obtain ⟨hdrest, hdpos, -⟩ := hd
      subst ha
      exact .ok (Cursor.Reaches.at hahead hc) (Cursor.Reaches.at hahead' hc') hdrest hdpos
  | @fail f f' hf =>
      obtain ⟨pos, e⟩ := f
      obtain ⟨pos', e'⟩ := f'
      obtain ⟨⟨hpos, -⟩, he⟩ := hf
      simp only at hpos he
      rw [hpos, ← he]
      exact .fail pos e
  | interrupted hw =>
      cases hw with
      | @stalled loop label pos pos' hpos =>
          rw [hpos.1]
          exact .stalled loop label pos
      | other _ h => exact .interrupted _ h

/-! ## The grammar -/

namespace Grammar

variable {c c' : Cursor}

/-- The recursive productions are portable, with the locations in expressions carried over. -/
theorem rules_portable (n : Production) : (rules n).Portable c c' := by
  have hlike : Likeness (fun e e' => e' = relocateExpr (c.carry c') e) =
      fun _ a a' => a' = relocate (c.carry c') a := by
    funext n a a'
    cases n with
    | spacing => rfl
    | datum => rfl
    | expr => exact congrArg (a' = ·) (relocate_expr _ _).symm
  have halike : Parser.Related (Tracking.translation c c')
      (Likeness fun e e' => e' = relocateExpr (c.carry c') e)
      (Likeness (fun e e' => e' = relocateExpr (c.carry c') e) n) (rules n) (rules n) :=
    rules_alike_translation n
  rw [hlike] at halike
  exact halike

/-- Expressions one after the other, with what each of them extends over, trivia included. -/
def extents : PieParser (List (Located Expr)) :=
  (skip.bind fun _ => innerExpr.located).many.guard (fun xs => !xs.isEmpty)
    (.ofDescription "expressions")

theorem extents_portable : extents.Portable c c' := by
  have hplaced : (innerExpr.located).Portable c c' :=
    Parser.Carried.located (Parser.Portable.call Production.expr)
  have hnext : (skip.bind fun _ => innerExpr.located).Portable c c' :=
    Parser.Carried.bind (Parser.Portable.call Production.spacing) fun _ => hplaced
  exact Parser.Carried.guard hnext.many _ fun xs => congrArg (!·) List.isEmpty_map

/-- Two expressions at the start of a text are read alike after a comment and two blanks. -/
theorem run_elsewhere_extents :
    ∃ c' xs d d', c'.At "; the same\n  (f x) y".toList ∧ c'.pos = ⟨2, 3⟩ ∧
      rules.run nestingCeiling "" extents (.start "(f x) y".toList) = .ok xs d ∧
      rules.run nestingCeiling "" extents c' =
        .ok (relocate ((Cursor.start "(f x) y".toList).carry c') xs) d' ∧
      xs.length = 2 ∧ d'.rest = d.rest ∧ d'.pos = ⟨d.pos.line + 1, d.pos.column + 2⟩ := by
  obtain ⟨c', hc', hpos', hrest'⟩ : ∃ c' : Cursor, c'.At "; the same\n  (f x) y".toList ∧
      c'.pos = ⟨2, 3⟩ ∧ c'.rest = "(f x) y".toList :=
    ⟨⟨"(f x) y".toList, 13, ⟨2, 3⟩⟩, by decide, rfl, rfl⟩
  have hcount : (value? (rules.run nestingCeiling "" extents (.start "(f x) y".toList))).any
      (·.length = 2) = true := by decide +kernel
  have hend : (reached? (rules.run nestingCeiling "" extents (.start "(f x) y".toList))).any
      (·.pos.line = 1) = true := by decide +kernel
  have hrun := Rules.run_elsewhere (Cursor.start_at "(f x) y".toList) hc' hrest' rules_portable
    extents_portable nestingCeiling ""
  generalize hfirst : rules.run nestingCeiling "" extents (.start "(f x) y".toList) = o at hrun
  generalize hsecond : rules.run nestingCeiling "" extents c' = o' at hrun
  rw [hfirst] at hcount hend
  cases hrun with
  | @ok xs d d' hd hd' hrest hpos =>
      have hlength : xs.length = 2 := of_decide_eq_true hcount
      have hline : d.pos.line = 1 := of_decide_eq_true hend
      refine ⟨c', xs, d, d', hc', hpos', rfl, hsecond, hlength, hrest, ?_⟩
      rw [hpos, hpos', Position.translate]
      simp [Cursor.start, Position.start, hline]
  | fail pos e => cases hcount
  | stalled loop label pos => cases hcount
  | interrupted why h => cases hcount

end Grammar

end PieSyntax
