import PieSyntax.Proofs.Parts

/-!
# Moving a run to another place

A cursor means no more than the text that is left and the position it stands at.  When a text is
read from two cursors, the two runs end alike, and all positions of the second are those of the
first, translated: lines are moved by the difference of the lines where the runs start, and columns
by the difference of the columns, on the line of the start only.

## Main results

* `Position.translate_advance` — translation goes along with moving across a text.
* `Grammar.run_translated`, `Grammar.expr_translated`, `Grammar.topLevel_translated` — the
  productions of the grammar, run elsewhere, return the same trees, translated.
-/

namespace PieSyntax

namespace Position

/-- Where `p` is found when what stands at `origin` is moved to `target`. -/
def translate (origin target p : Position) : Position :=
  ⟨p.line + (target.line - origin.line),
    if p.line = origin.line then p.column + (target.column - origin.column) else p.column⟩

@[simp] theorem translate_origin (origin target : Position) :
    translate origin target origin = target := by
  unfold translate
  simp only [if_true]
  cases target
  simp only [Position.mk.injEq]
  omega

theorem translate_advanceChar {origin p : Position} (target : Position)
    (h : origin.line ≤ p.line) (c : Char) :
    translate origin target (p.advanceChar c) = (translate origin target p).advanceChar c := by
  by_cases hc : c = '\n'
  · subst hc
    have hne : ¬ p.line + 1 = origin.line := by omega
    simp only [translate, advanceChar_newline, hne, if_false, Position.mk.injEq, and_true]
    omega
  · simp only [advanceChar_of_ne hc, translate]
    by_cases hl : p.line = origin.line
    · simp only [hl, if_true, Position.mk.injEq, true_and]
      omega
    · simp only [hl, if_false]

theorem line_le_advanceChar (p : Position) (c : Char) : p.line ≤ (p.advanceChar c).line := by
  unfold advanceChar
  split
  · show p.line ≤ p.line + 1
    omega
  · exact Int.le_refl p.line

theorem line_le_advance (p : Position) (text : Text) : p.line ≤ (p.advance text).line := by
  unfold advance
  split
  · show p.line ≤ p.line + _
    omega
  · exact Int.le_refl p.line

/-- Translation goes along with moving across a text. -/
theorem translate_advance {origin p : Position} (target : Position) (h : origin.line ≤ p.line)
    (text : Text) :
    translate origin target (p.advance text) = (translate origin target p).advance text := by
  induction text generalizing p with
  | nil => rw [advance_nil, advance_nil]
  | cons c text ih =>
      have hline := line_le_advanceChar p c
      rw [advance_cons, advance_cons, ih (by omega), translate_advanceChar target h]

/-- What comes later is translated to what comes later. -/
theorem translate_lt_iff {origin p q : Position} (target : Position) (hp : origin.line ≤ p.line)
    (hq : origin.line ≤ q.line) :
    p < q ↔ translate origin target p < translate origin target q := by
  simp only [lt_def, translate]
  split <;> split <;> omega

end Position

namespace Tracking

/-- Cursors with the same text left, the second at the translated position; they have moved the
same way since they stood at `c₀` and `c₁`. -/
def translation (c₀ c₁ : Cursor) : Tracking where
  cursor c c' := c'.rest = c.rest ∧ c'.pos = Position.translate c₀.pos c₁.pos c.pos ∧
    c₀.pos.line ≤ c.pos.line ∧ c'.offset + c₀.offset = c.offset + c₁.offset
  position p p' := p' = Position.translate c₀.pos c₁.pos p ∧ c₀.pos.line ≤ p.line
  rest_eq h := h.1
  skip := by
    intro c c' u r h hrest
    obtain ⟨hr, hpos, hline, hoff⟩ := h
    refine ⟨?_, ?_, ?_, ?_⟩
    · show c'.rest.drop u.length = c.rest.drop u.length
      rw [hr]
    · show c'.pos.advance u = _
      rw [hpos, ← Position.translate_advance c₁.pos hline]
      rfl
    · exact Int.le_trans hline (Position.line_le_advance c.pos u)
    · show c'.offset + u.length + c₀.offset = c.offset + u.length + c₁.offset
      omega
  pos h := ⟨h.2.1, h.2.2.1⟩
  offset_iff h h' := by
    have h1 := h.2.2.2
    have h2 := h'.2.2.2
    omega
  lt_iff h h' := by
    rw [h.1, h'.1]
    exact Position.translate_lt_iff _ h.2 h'.2

theorem translation_start {c₀ c₁ : Cursor} (h : c₁.rest = c₀.rest) :
    (translation c₀ c₁).cursor c₀ c₁ :=
  ⟨h, (Position.translate_origin c₀.pos c₁.pos).symm, Int.le_refl _, Nat.add_comm _ _⟩

end Tracking

/-! ## Trees -/

section Trees

variable {c₀ c₁ : Cursor}

/-- Locations that are translated along with the cursors. -/
def Cursor.carry (c₀ c₁ : Cursor) : Location → Location :=
  Location.map (Position.translate c₀.pos c₁.pos)

/-- Moves what was read at the start of a text to `p`. -/
def Location.movedTo (p : Position) : Location → Location :=
  Location.map (Position.translate Position.start p)

theorem Tracking.eq_of_spans {l l' : Location} (h : (translation c₀ c₁).Spans l l') :
    l' = c₀.carry c₁ l := by
  obtain ⟨source, start, finish⟩ := l
  obtain ⟨source', start', finish'⟩ := l'
  obtain ⟨hsource, hstart, hfinish⟩ := h
  simp only [Cursor.carry, Location.map, Location.mk.injEq]
  exact ⟨hsource.symm, hstart.1, hfinish.1⟩

theorem eq_map_of_forall₂ {α : Type} {f : α → α} {as bs : List α}
    (h : List.Forall₂ (fun a b => b = f a) as bs) : bs = as.map f := by
  induction h with
  | nil => rfl
  | cons hab _ ih => rw [hab, ih, List.map_cons]

theorem Binder.eq_relocate_of_matches {b b' : Binder}
    (h : b.Matches (Tracking.translation c₀ c₁) b') : b' = b.relocate (c₀.carry c₁) := by
  obtain ⟨loc, name⟩ := b
  obtain ⟨loc', name'⟩ := b'
  simp only [Binder.relocate, Binder.mk.injEq]
  exact ⟨Tracking.eq_of_spans h.1, h.2.symm⟩

theorem TypedBinder.eq_relocate_of_matches {b b' : TypedBinder}
    (h : b.Matches (Tracking.translation c₀ c₁) (fun e e' => e' = relocateExpr (c₀.carry c₁) e)
      b') : b' = b.relocate (c₀.carry c₁) := by
  obtain ⟨loc, name, type⟩ := b
  obtain ⟨loc', name', type'⟩ := b'
  obtain ⟨hloc, hname, htype⟩ := h
  simp only [TypedBinder.loc, TypedBinder.name, TypedBinder.type] at hloc hname htype
  rw [TypedBinder.relocate, Tracking.eq_of_spans hloc, hname, htype]

/-- Nodes with translated parts are translated. -/
theorem Node.eq_relocate_of_matches {a a' : Node}
    (h : a.Matches (Tracking.translation c₀ c₁) (fun e e' => e' = relocateExpr (c₀.carry c₁) e)
      a') : a' = a.relocate (c₀.carry c₁) := by
  cases h with
  | var name => rw [Node.relocate]
  | tick name => rw [Node.relocate]
  | natLit value => rw [Node.relocate]
  | constant c => rw [Node.relocate]
  | form f hargs =>
      rw [Node.relocate]
      congr 1
      apply Arguments.toList_injective
      rw [Arguments.toList_relocate, eq_map_of_forall₂ hargs]
  | lambda hbs hbody =>
      rw [Node.relocate, hbody]
      rw [eq_map_of_forall₂ (hbs.imp fun _ _ hb => Binder.eq_relocate_of_matches hb)]
  | quantified q hbs hbody =>
      rw [Node.relocate, hbody, relocateTypedBinders_eq_map]
      rw [eq_map_of_forall₂ (hbs.imp fun _ _ hb => TypedBinder.eq_relocate_of_matches hb)]
  | arrow harg hrest =>
      rw [Node.relocate, harg, eq_map_of_forall₂ hrest, relocateExprs_eq_map]
  | app hhead hargs =>
      rw [Node.relocate, hhead, eq_map_of_forall₂ hargs, relocateExprs_eq_map]

theorem eq_relocateExpr_of_places {e e' : Expr}
    (h : (Tracking.translation c₀ c₁).Places (Node.Matches (Tracking.translation c₀ c₁)
      (fun e e' => e' = relocateExpr (c₀.carry c₁) e)) e e') :
    e' = relocateExpr (c₀.carry c₁) e := by
  obtain ⟨loc, node⟩ := e
  obtain ⟨loc', node'⟩ := e'
  rw [relocateExpr, ← Node.eq_relocate_of_matches h.2, ← Tracking.eq_of_spans h.1]

theorem eq_relocateName_of_places {x x' : Located Text}
    (h : (Tracking.translation c₀ c₁).Places Eq x x') : x' = relocateName (c₀.carry c₁) x := by
  obtain ⟨loc, name⟩ := x
  obtain ⟨loc', name'⟩ := x'
  simp only [relocateName, Located.mk.injEq]
  exact ⟨Tracking.eq_of_spans h.1, h.2.symm⟩

theorem eq_relocateTopLevel_of_places {t t' : TopLevel}
    (h : (Tracking.translation c₀ c₁).Places (Statement.Matches (Tracking.translation c₀ c₁)
      (fun e e' => e' = relocateExpr (c₀.carry c₁) e)) t t') :
    t' = relocateTopLevel (c₀.carry c₁) t := by
  obtain ⟨loc, statement⟩ := t
  obtain ⟨loc', statement'⟩ := t'
  obtain ⟨hloc, hvalue⟩ := h
  simp only [relocateTopLevel, Located.mk.injEq]
  refine ⟨Tracking.eq_of_spans hloc, ?_⟩
  simp only at hvalue
  cases hvalue with
  | claim hname htype => rw [Statement.relocate, htype, eq_relocateName_of_places hname]
  | define hname hvalue => rw [Statement.relocate, hvalue, eq_relocateName_of_places hname]
  | checkSame htype hleft hright => rw [Statement.relocate, htype, hleft, hright]
  | expr he => rw [Statement.relocate, he]

end Trees

/-! ## The grammar -/

namespace Grammar

variable {c₀ c₁ : Cursor}

/-- Two runs that return the same, translated. -/
abbrev Translated (c₀ c₁ : Cursor) {α : Type} (move : α → α) : Outcome α → Outcome α → Prop :=
  Outcome.Related (Tracking.translation c₀ c₁) fun a a' => a' = move a

/-- The rules are built alike, and the expressions they return are translated. -/
theorem rules_alike_translation (n : Production) :
    Alike (Tracking.translation c₀ c₁) (fun e e' => e' = relocateExpr (c₀.carry c₁) e)
      (Likeness (fun e e' => e' = relocateExpr (c₀.carry c₁) e) n) (rules n) (rules n) := by
  cases n with
  | spacing => exact spacing_alike
  | datum => exact datum_alike
  | expr => exact expr_alike.mono fun _ _ h => eq_relocateExpr_of_places h

/-- A parser of the grammar that is built alike, run from two cursors with the same text left. -/
theorem run_translated {α β : Type} {T : α → β → Prop} {p : PieParser α} {q : PieParser β}
    (h : Alike (Tracking.translation c₀ c₁) (fun e e' => e' = relocateExpr (c₀.carry c₁) e) T p q)
    (ceiling : Nat) (source : String) {c c' : Cursor}
    (hc : (Tracking.translation c₀ c₁).cursor c c') :
    Outcome.Related (Tracking.translation c₀ c₁) T (rules.run ceiling source p c)
      (rules.run ceiling source q c') :=
  Rules.run_related rules_alike_translation ceiling source h hc

theorem expr_translated (ceiling : Nat) (source : String) {c c' : Cursor}
    (hc : (Tracking.translation c₀ c₁).cursor c c') :
    Translated c₀ c₁ (relocateExpr (c₀.carry c₁)) (rules.run ceiling source expr c)
      (rules.run ceiling source expr c') :=
  (run_translated expr_alike ceiling source hc).mono fun _ _ h => eq_relocateExpr_of_places h

/-- Top-level forms are built alike, the second one translated. -/
theorem topLevel_alike_translation :
    Alike (Tracking.translation c₀ c₁) (fun e e' => e' = relocateExpr (c₀.carry c₁) e)
      (fun t t' => t' = relocateTopLevel (c₀.carry c₁) t) topLevel topLevel := by
  refine topLevel_alike (fun t t' h => eq_relocateTopLevel_of_places h) fun e e' h => ?_
  rw [eq_relocateExpr_of_places h, relocateTopLevel, Statement.relocate, relocateExpr_loc]

theorem topLevel_translated (ceiling : Nat) (source : String) {c c' : Cursor}
    (hc : (Tracking.translation c₀ c₁).cursor c c') :
    Translated c₀ c₁ (relocateTopLevel (c₀.carry c₁)) (rules.run ceiling source topLevel c)
      (rules.run ceiling source topLevel c') :=
  run_translated topLevel_alike_translation ceiling source hc

end Grammar

end PieSyntax
