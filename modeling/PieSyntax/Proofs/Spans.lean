import PieSyntax.Proofs.Cut
import PieSyntax.Proofs.Invariant
import PieSyntax.Proofs.Offsets
import PieSyntax.Proofs.Translation

/-!
# Reading a span by itself

The place of an expression, or of a top-level form, spans just the text that it was read from: read
by itself, that text gives the same tree, at the places moved to the start of the text.

The run that returned the tree went on to the trivia after it.  What it did before does not depend on
them, so it goes the same way when the text ends there, under the same ceiling; and what a run returns
depends on where it starts by a translation only.

## Main results

* `Cursor.At.offsetOf` — a cursor on a text stands at the offset of its position.
* `Grammar.eval_alone` — a parser that reads up to a place reads the same when the text ends there.
* `parse_spans` — every span of a program read by itself.
-/

namespace PieSyntax

variable {ceiling : Nat}

/-! ## Offsets -/

/-- The position is found in the text after `i` characters, and nowhere else. -/
def OffsetOf (s : Text) (p : Position) (i : Nat) : Prop :=
  i ≤ s.length ∧ ∀ i' ≤ s.length, Position.start.advance (s.take i') = p ↔ i' = i

namespace Cursor

variable {s : Text} {c m : Cursor}

theorem At.offsetOf (h : c.At s) : OffsetOf s c.pos c.offset := by
  obtain ⟨hle, -, hpos⟩ := h
  refine ⟨hle, fun i hi => ?_⟩
  rw [hpos]
  exact positionOf_eq_iff hi hle

/-- What stands between two cursors on a text. -/
theorem At.slice (h : c.At s) {u : Text} (hu : Passes u c m) :
    (s.take m.offset).drop c.offset = u := by
  rw [hu.offset, List.drop_take, ← h.2.1, hu.rest, Nat.add_sub_cancel_left, List.take_left]

end Cursor

/-! ## Runs on the text of a span -/

/-- The text after an S-expression is not part of it. -/
theorem SExpr.StandsBy.endsBefore {source : String} {x : SExpr Location} {c m : Cursor}
    (h : x.Stands source c m) : x.EndsBefore m.rest := by
  cases x with
  | word loc name =>
      obtain ⟨hname, rfl, -⟩ := h
      obtain ⟨r, hr, -, hboundary⟩ := wordPrefix_eq_some_iff.mp hname
      rw [Cursor.rest_skip hr]
      exact hboundary
  | quoted loc name =>
      obtain ⟨r, hr, hname, rfl, -⟩ := h
      obtain ⟨r', rfl, -, hboundary⟩ := wordPrefix_eq_some_iff.mp hname
      rw [Cursor.rest_skip (u := '\'' :: name) hr]
      exact hboundary
  | numeral loc run =>
      obtain ⟨hrun, rfl, -⟩ := h
      obtain ⟨r, hr, -, -, hend⟩ := digitPrefix_eq_some_iff.mp hrun
      rw [Cursor.rest_skip hr]
      exact hend
  | list loc items => trivial

/-- The text `v` and none at all. -/
def Tails.orNone (v : Text) : Tails := ⟨fun w => w = v ∨ w = [], True⟩

theorem SExpr.StandsBy.closed {source : String} {x : SExpr Location} {c m : Cursor} {v : Text}
    (h : x.Stands source c m) (hv : m.rest = v) {m' : Cursor} : x.Closed (.orNone v) m' := by
  refine Or.inr fun w hw => ?_
  rcases hw with rfl | rfl
  · rw [← hv]
    exact h.endsBefore
  · cases x with
    | word loc name => exact fun ch hch => by cases hch
    | quoted loc name => exact fun ch hch => by cases hch
    | numeral loc run => exact fun ch hch => by cases hch
    | list loc items => trivial

namespace Grammar

variable {source : String} {k : Nat} {c d m : Cursor} {v : Text}

/-- Where no trivia come next, none are skipped. -/
theorem eval_trivia_of_solid (h : Solid c.rest) :
    trivia.eval (rules.call source k) source c = .ok () c := by
  have hreturns : Parser.Returns (rules.call source k) source (.empty False) trivia c () c :=
    returns_trivia (Cursor.Gap.refl c) (clear_of_solid h) (Or.inr (by omega))
  exact hreturns.eval_ok

/-- A parser that reads up to `m` before a text reads the same when the text is cut off there. -/
theorem eval_alone {α : Type} {p : PieParser α} {a : α}
    (hreads : Parser.Reads (rules.call source k) source (.orNone v) skip p c a m)
    (hm : m.rest = []) (h : p.eval (rules.call source k) source (c.before v) = .ok a d) :
    p.eval (rules.call source k) source c = .ok a m := by
  rcases hreads with ⟨-, hdeep⟩ | hfollows
  · rw [hdeep v (Or.inl rfl)] at h
    cases h
  · cases k with
    | zero =>
        rw [(hfollows v (Or.inl rfl)).tooDeep rfl] at h
        cases h
    | succ k =>
        have hend : skip.eval (rules.call source (k + 1)) source m = .ok () m := by
          refine eval_trivia_of_solid ?_
          rw [hm]
          exact fun ch hch => by cases hch
        have hnone := hfollows [] (Or.inr rfl)
        rw [Cursor.before_nil, Cursor.before_nil] at hnone
        exact hnone.ok m hend

end Grammar

namespace Grammar

/-- What a parser read from the text of an S-expression it reads from that text alone, at the places
moved to the start. -/
theorem exists_run_alone {α : Type} {p : PieParser α} {move : α → α} {x : SExpr Location} {a : α}
    {source : String} {k : Nat} {c m d : Cursor} (hk : k ≤ ceiling)
    (hx : x.Stands source c m) (heval : p.eval (rules.call source k) source c = .ok a d)
    (hreads : ∀ c' m' : Cursor, x.Stands source c' m' → x.Closed (.orNone m.rest) m' →
      Parser.Reads (rules.call source k) source (.orNone m.rest) skip p c' a m')
    (htranslated : ∀ c' : Cursor, c'.pos = c.pos → Translated (.start c'.rest) c' move
      (rules.run k source p (.start c'.rest)) (rules.run k source p c')) :
    ∃ u, Cursor.Passes u c m ∧ u ≠ [] ∧ Solid u ∧ ∃ a' m',
      rules.run ceiling source p (.start u) = .ok a' m' ∧ m'.rest = [] ∧ a = move a' := by
  obtain ⟨u, hu⟩ := hx.reaches.1
  -- The two cursors, in the text that ends where the S-expression does.
  obtain ⟨c', hc', hrest, hpos⟩ : ∃ c' : Cursor, c = c'.before m.rest ∧ c'.rest = u ∧
      c'.pos = c.pos := by
    refine ⟨⟨u, c.offset, c.pos⟩, ?_, rfl, rfl⟩
    rw [Cursor.before, ← hu.rest]
  obtain ⟨m', hm', hnil⟩ : ∃ m' : Cursor, m = m'.before m.rest ∧ m'.rest = [] :=
    ⟨⟨[], m.offset, m.pos⟩, rfl, rfl⟩
  have hstands : x.Stands source c' m' := by
    refine SExpr.StandsBy.cut (v := m.rest) ?_
    rw [← hc', ← hm']
    exact hx
  rw [hc'] at heval
  have halone := eval_alone (hreads c' m' hstands (hx.closed rfl)) hnil heval
  have hrel := htranslated c' hpos
  rw [show rules.run k source p c' = .ok a m' from halone, hrest] at hrel
  refine ⟨u, hu, hrest ▸ hstands.solid.2, hrest ▸ hstands.solid.1, ?_⟩
  generalize hrun : rules.run k source p (.start u) = o at hrel
  cases hrel with
  | @ok a' a n n' ha hn =>
      have hup := rules.run_upTo hk source p (.start u)
      rw [hrun] at hup
      exact ⟨a', n, (hup.eq (by simp)).symm, hn.1.symm.trans hnil, ha⟩

end Grammar

/-! ## The entry points -/

variable {source : String} {u : Text} {m : Cursor}

theorem parseExpression_of_run {e : Expr} (hsolid : Solid u)
    (hrun : Grammar.rules.run ceiling source Grammar.expr (.start u) = .ok e m)
    (hm : m.rest = []) : parseExpression source u false ceiling = .ok e :=
  parseExpression_eq_ok_iff_eval.mpr
    ⟨.start u, m, Grammar.eval_trivia_of_solid hsolid, hrun, hm⟩

theorem iterForms_of_run {t : TopLevel} (hne : u ≠ []) (hsolid : Solid u)
    (hrun : Grammar.rules.run ceiling source Grammar.topLevel (.start u) = .ok t m)
    (hm : m.rest = []) : iterForms source u ceiling = ⟨[t], none⟩ := by
  have hread : readFrom source u (.start u) Grammar.trivia ceiling = .ok ⟨(), .start u⟩ :=
    readFrom_eq_ok_iff.mpr (Grammar.eval_trivia_of_solid hsolid)
  have hend : m.atEnd = true := by
    rw [Cursor.atEnd, hm]
    rfl
  have hstart : (Cursor.start u).atEnd ≠ true := fun h => hne (List.isEmpty_iff.mp h)
  obtain ⟨ch, r, hu⟩ := List.exists_cons_of_ne_nil hne
  rw [iterForms, hread]
  show readForms ceiling source u u (.start u) [] = ⟨[t], none⟩
  conv => lhs; arg 4; rw [hu]
  rw [readForms, if_neg hstart, readFrom_eq_ok_iff.mpr hrun]
  cases r with
  | nil => rfl
  | cons ch' r =>
      show readForms ceiling source u (ch' :: r) m [t] = ⟨[t], none⟩
      rw [readForms, if_pos hend]
      rfl

/-! ## Programs -/

/-- An expression stands where its S-expression does. -/
theorem elaborate_loc {L : Type} {place : L → Location} {x : SExpr L} {e : Expr}
    (h : elaborate place x = some e) : e.loc = place x.label := by
  cases x with
  | word label name =>
      obtain ⟨node, -, rfl⟩ := elaborate_word_eq_some h
      rfl
  | quoted label name =>
      cases h
      rfl
  | numeral label run =>
      obtain ⟨value, -, rfl⟩ := elaborate_numeral_eq_some h
      rfl
  | list label items =>
      rw [elaborate] at h
      obtain ⟨node, -, rfl⟩ := Option.map_eq_some_iff.mp h
      rfl

theorem elaborateTopLevel_loc {L : Type} {place : L → Location} {x : SExpr L} {t : TopLevel}
    (h : elaborateTopLevel place x = some t) : t.loc = place x.label := by
  rcases elaborateTopLevel_eq_some h with
    ⟨label, l, name, c, items, statement, rfl, -, -, rfl⟩ | ⟨e, -, he, rfl⟩
  · rfl
  · exact elaborate_loc he

/-- The text between the offsets `i` and `j` is what the place spans. -/
structure Location.SpansFrom (s : Text) (l : Location) (i j : Nat) : Prop where
  lt : i < j
  start : OffsetOf s l.start i
  finish : OffsetOf s l.finish j

variable {s : Text}

theorem SExpr.StandsBy.spansFrom {x : SExpr Location} {c : Cursor} (h : x.Stands source c m)
    (hc : c.At s) : x.label.SpansFrom s c.offset m.offset := by
  obtain ⟨⟨u, hu⟩, hlt⟩ := h.reaches
  rw [h.label_eq]
  refine ⟨?_, hc.offsetOf, (hu.at hc).offsetOf⟩
  have hlen := congrArg List.length hu.rest
  rw [List.length_append] at hlen
  rw [hu.offset]
  omega

/-- The text that a top-level form spans in `s` gives just that form, at the places moved. -/
def FormReadAlone (source : String) (s : Text) (t : TopLevel) (ceiling : Nat := nestingCeiling) :
    Prop :=
  ∃ i j, t.loc.SpansFrom s i j ∧ ∃ t', iterForms source ((s.take j).drop i) ceiling = ⟨[t'], none⟩ ∧
    t = relocateTopLevel (.movedTo t.loc.start) t'

/-- The text that an expression spans in `s` gives that expression, at the places moved. -/
def ExprReadAlone (source : String) (s : Text) (e : Expr) (ceiling : Nat := nestingCeiling) :
    Prop :=
  ∃ i j, e.loc.SpansFrom s i j ∧
    ∃ e', parseExpression source ((s.take j).drop i) false ceiling = .ok e' ∧
      e = relocateExpr (.movedTo e.loc.start) e'

theorem exprReadAlone_of_readBelow {e : Expr} (h : ReadBelow source s (ceiling + 1) e) :
    ExprReadAlone source s e ceiling := by
  obtain ⟨k, hk, c, d, hc, heval⟩ := h
  obtain ⟨x, m, hx, hmean, -⟩ := Grammar.stands_of_eval_expr heval
  have hloc : e.loc = x.label := elaborate_loc hmean
  have hstart : e.loc.start = c.pos := by rw [hloc, hx.label_eq]
  have htranslated : ∀ c' : Cursor, c'.pos = c.pos →
      Grammar.Translated (.start c'.rest) c' (relocateExpr (.movedTo c.pos))
        (Grammar.rules.run k source Grammar.expr (.start c'.rest))
        (Grammar.rules.run k source Grammar.expr c') := fun c' hpos =>
    hpos ▸ Grammar.expr_translated k source (Tracking.translation_start rfl)
  obtain ⟨u, hu, hne, hsolid, e', m', hrun, hnil, he⟩ :=
    Grammar.exists_run_alone (Nat.le_of_lt_succ hk) hx heval
      (fun c' m' hx' hclosed => Grammar.reads_expr (Grammar.skippable_of_cut trivial) hx' hmean
        hclosed (Or.inl trivial)) htranslated
  refine ⟨c.offset, m.offset, hloc ▸ hx.spansFrom hc, e', ?_, hstart ▸ he⟩
  rw [hc.slice hu]
  exact parseExpression_of_run hsolid hrun hnil

theorem formReadAlone_of_eval {t : TopLevel} {c d : Cursor} (hc : c.At s)
    (heval : Grammar.topLevel.eval (Grammar.rules.call source ceiling) source c = .ok t d) :
    FormReadAlone source s t ceiling := by
  obtain ⟨x, m, hx, hmean, -⟩ := Grammar.stands_of_eval_topLevel heval
  have hloc : t.loc = x.label := elaborateTopLevel_loc hmean
  have hstart : t.loc.start = c.pos := by rw [hloc, hx.label_eq]
  have htranslated : ∀ c' : Cursor, c'.pos = c.pos →
      Grammar.Translated (.start c'.rest) c' (relocateTopLevel (.movedTo c.pos))
        (Grammar.rules.run ceiling source Grammar.topLevel (.start c'.rest))
        (Grammar.rules.run ceiling source Grammar.topLevel c') := fun c' hpos =>
    hpos ▸ Grammar.topLevel_translated ceiling source (Tracking.translation_start rfl)
  obtain ⟨u, hu, hne, hsolid, t', m', hrun, hnil, ht⟩ :=
    Grammar.exists_run_alone (Nat.le_refl _) hx heval
      (fun c' m' hx' hclosed => Grammar.reads_topLevel (Grammar.skippable_of_cut trivial) hx' hmean
        hclosed (Or.inl trivial)) htranslated
  refine ⟨c.offset, m.offset, hloc ▸ hx.spansFrom hc, t', ?_, hstart ▸ ht⟩
  rw [hc.slice hu]
  exact iterForms_of_run hne hsolid hrun hnil

/-- Read by itself, the span of each top-level form of a program gives that form alone, and the span
of each expression within it gives that expression, at the places moved to the start. -/
theorem parse_spans {ts : List TopLevel} (h : parseSource source s ceiling = .ok ts) : ∀ t ∈ ts,
    FormReadAlone source s t ceiling ∧ ∀ e ∈ t.subexpressions, ExprReadAlone source s e ceiling := by
  intro t ht
  constructor
  · obtain ⟨c, d, hc, heval⟩ := exists_eval_of_mem h ht
    exact formReadAlone_of_eval hc heval
  · intro e he
    exact exprReadAlone_of_readBelow (exists_eval_of_mem_subexpressions h ht he)

/-- A program with a comment within its form and one after it. -/
def commentedProgram : Text := "#lang pie\n\n(the #;(x) Atom\n  'x); done".toList

/-- The form of the program and an expression within it are read by themselves. -/
theorem readAlone_commentedProgram : ∃ t e, parseSource "the.pie" commentedProgram = .ok [t] ∧
    e ∈ t.subexpressions ∧ FormReadAlone "the.pie" commentedProgram t ∧
      ExprReadAlone "the.pie" commentedProgram e := by
  have hcount : (parseSource "the.pie" commentedProgram).toOption.map
      (List.map fun t => t.subexpressions.length) = some [3] := by decide +kernel
  cases hread : parseSource "the.pie" commentedProgram with
  | error e =>
      rw [hread] at hcount
      cases hcount
  | ok ts =>
      rw [hread] at hcount
      obtain ⟨t, rfl, hlen⟩ := List.map_eq_singleton_iff.mp (Option.some.inj hcount)
      have hpos : 0 < t.subexpressions.length := by omega
      obtain ⟨e, es, hes⟩ := List.exists_cons_of_length_pos hpos
      have he : e ∈ t.subexpressions := hes ▸ List.mem_cons_self
      obtain ⟨hform, hexprs⟩ := parse_spans hread t List.mem_cons_self
      exact ⟨t, e, rfl, he, hform, hexprs e he⟩

end PieSyntax
