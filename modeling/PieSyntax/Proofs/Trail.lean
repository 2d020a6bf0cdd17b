import PieSyntax.Proofs.Extend
import PieSyntax.Proofs.Spans
import PieSyntax.Proofs.StuckProgram

/-!
# Trails through a whole text

A program and an expression that stands alone are two ways into the grammar.  A trail leads from the
start of such a text to a place where the text breaks off: within the first line, at a form, at the
expression, or where input is left over.  Every failure lies at the end of a trail; what comes after
it can be cut off.

A text is complete if its forms, or its expression, stand in it up to the end.

## Main results

* `EntryPoint.exists_trail_of_read` — a report stands at the end of a trail through the text before it.
* `EntryPoint.Complete.run`, `EntryPoint.Complete.read` — complete texts are accepted.
-/

namespace PieSyntax

variable {ceiling : Nat}

/-- A way into the grammar for a text of its own. -/
inductive EntryPoint where
  | program
  | expression (allowTrailing : Bool)

namespace EntryPoint

/-- What is returned. -/
def Result : EntryPoint → Type
  | .program => List TopLevel
  | .expression _ => Expr

/-- The parser that is run. -/
def parser : (e : EntryPoint) → PieParser e.Result
  | .program => Grammar.program
  | .expression allowTrailing => expressionParser allowTrailing

/-- What the caller sees. -/
def read (e : EntryPoint) (source : String) (text : Text) (ceiling : Nat := nestingCeiling) :
    Except ReadError e.Result :=
  match e with
  | .program => parseSource source text ceiling
  | .expression allowTrailing => parseExpression source text allowTrailing ceiling

variable {e : EntryPoint} {source : String} {text : Text}

theorem read_eq (e : EntryPoint) (source : String) (text : Text) :
    e.read source text ceiling =
      (readFrom source text (.start text) e.parser ceiling).map (·.value) := by
  cases e <;> rfl

theorem read_eq_error_iff {why : ReadError} :
    e.read source text ceiling = .error why ↔
      readFrom source text (.start text) e.parser ceiling = .error why := by
  rw [read_eq]
  cases readFrom source text (.start text) e.parser ceiling with
  | ok progress => exact ⟨fun h => (by cases h), fun h => (by cases h)⟩
  | error why' => exact ⟨fun h => (by cases h; rfl), fun h => (by cases h; rfl)⟩

theorem read_of_ok {v : e.Result} {d : Cursor}
    (h : Grammar.rules.run ceiling source e.parser (.start text) = .ok v d) :
    e.read source text ceiling = .ok v := by
  rw [read_eq, readFrom_eq_ok_iff.mpr h]
  rfl

theorem read_of_fail {f : Failure}
    (h : Grammar.rules.run ceiling source e.parser (.start text) = .fail f) :
    e.read source text ceiling = .error (.report ⟨source, f, some text, none⟩) := by
  rw [read_eq, readFrom, h]
  rfl

theorem run_ne_tooDeep (h : BelowCeiling (e.read source text ceiling)) :
    Grammar.rules.run ceiling source e.parser (.start text) ≠ .interrupted .tooDeep := by
  rw [read_eq] at h
  exact (BelowCeiling.map h).readFrom

/-- A report that is not about nesting is a failure of the run. -/
theorem run_of_read {r : Report} (h : e.read source text ceiling = .error (.report r))
    (hdetail : r.detail ≠ some tooDeepMessage) :
    Grammar.rules.run ceiling source e.parser (.start text) = .fail r.failure :=
  run_of_readFrom (read_eq_error_iff.mp h) hdetail

theorem finishes (e : EntryPoint) {k : Nat} (h : text.length < k) :
    Grammar.rules.run k source e.parser (.start text) ≠ .interrupted .tooDeep := by
  cases e with
  | program => exact Grammar.finishes_program h
  | expression allowTrailing => exact Grammar.finishes_expressionParser allowTrailing h

end EntryPoint

/-! ## Trails -/

/-- The text at the first cursor breaks off at the second, where only the given characters are waited
for. -/
inductive Trail (source : String) : EntryPoint → Cursor → Cursor → List Char → Prop where
  /-- The first line is not there. -/
  | header {u s r : Text} {ch : Char} {c : Cursor} (hs : Grammar.header = u ++ ch :: s)
    (hr : c.rest = u ++ r) : Trail source .program c (c.skip u) [ch]
  /-- After some forms another one breaks off. -/
  | form {r : Text} {xs : List (SExpr Location)} {c d h : Cursor} {hints : List Char}
    (hr : c.rest = Grammar.header ++ r)
    (hxs : SExpr.StandAfter source xs (c.skip Grammar.header) d)
    (hall : ∀ x ∈ xs, Slot.topLevel.Accepts x) (hstuck : Stuck source .topLevel d h hints) :
    Trail source .program c h hints
  /-- The expression breaks off. -/
  | expr {allowTrailing : Bool} {c d h : Cursor} {hints : List Char} (hgap : c.Gap d)
    (hstuck : Stuck source .expr d h hints) :
    Trail source (.expression allowTrailing) c h hints
  /-- The expression is over, and no more is waited for. -/
  | leftover {x : SExpr Location} {c h : Cursor} (hx : SExpr.StandAfter source [x] c h)
    (haccepts : Slot.expr.Accepts x) : Trail source (.expression false) c h []

namespace Trail

variable {source : String} {e : EntryPoint} {c h : Cursor} {hints : List Char}

theorem reaches (ht : Trail source e c h hints) : c.Reaches h := by
  cases ht with
  | header hs hr => exact Cursor.reaches_skip hr
  | form hr hxs hall hstuck =>
      exact ((Cursor.reaches_skip hr).trans hxs.reaches).trans hstuck.reaches
  | expr hgap hstuck => exact hgap.reaches.trans hstuck.reaches
  | leftover hx haccepts => exact hx.reaches

/-- What comes after the end of a trail plays no part. -/
theorem cut {v : Text} (ht : Trail source e (c.before v) (h.before v) hints) :
    Trail source e c h hints := by
  generalize hc : c.before v = c' at ht
  generalize hh : h.before v = h' at ht
  cases ht with
  | header hs hr =>
      subst hc
      obtain ⟨hr', rfl⟩ := Cursor.skip_cut hr hh
      exact .header hs hr'
  | @form r xs _ d _ _ hr hxs hall hstuck =>
      subst hc hh
      obtain ⟨d, rfl⟩ := hstuck.reaches.exists_before
      obtain ⟨c₀, hc₀⟩ := hxs.reaches.exists_before
      obtain ⟨hr', rfl⟩ := Cursor.skip_cut hr hc₀.symm
      rw [hc₀] at hxs
      exact .form hr' hxs.cut hall hstuck.cut
  | @expr t _ d _ _ hgap hstuck =>
      subst hc hh
      obtain ⟨d, rfl⟩ := hstuck.reaches.exists_before
      exact .expr hgap.cut hstuck.cut
  | leftover hx haccepts =>
      subst hc hh
      exact .leftover hx.cut haccepts

end Trail

/-- At the end of a text every S-expression ends where it ends. -/
theorem closed_of_empty {cut : Prop} (x : SExpr Location) (m : Cursor) :
    x.Closed (.empty cut) m := by
  refine Or.inr fun v hv => ?_
  rw [show v = [] from hv]
  exact SExpr.endsBefore_of_boundary x fun ch hch => by cases hch

namespace EntryPoint

variable {e : EntryPoint} {source : String} {s : Text}

/-- A run fails at the end of a trail. -/
theorem exists_trail_of_eval {k : Nat} {c : Cursor} {f : Failure}
    (h : e.parser.eval (Grammar.rules.call source k) source c = .fail f) :
    ∃ d hints, Trail source e c d hints ∧ f.At d hints := by
  cases e with
  | program =>
      rcases Grammar.eval_program_fail h with
        ⟨u, ch, s, r, hs, hr, hat⟩ | ⟨r, xs, d, hr, hxs, hall, d', hints, hstuck, hat⟩
      · exact ⟨_, _, .header hs hr, hat⟩
      · exact ⟨d', hints, .form hr hxs hall hstuck, hat⟩
  | expression allowTrailing =>
      rcases Grammar.eval_expressionParser_fail h with
        ⟨d, hgap, d', hints, hstuck, hat⟩ | ⟨x, d, hallow, hx, haccepts, hat⟩
      · exact ⟨d', hints, .expr hgap hstuck, hat⟩
      · subst hallow
        exact ⟨d, [], .leftover hx haccepts, hat⟩

/-- A report stands at the end of a trail through the text before it. -/
theorem exists_trail_of_read {r : Report} (h : e.read source s ceiling = .error (.report r))
    (hdetail : r.detail ≠ some tooDeepMessage) :
    ∃ o d hints, OffsetOf s r.failure.pos o ∧ Trail source e (.start (s.take o)) d hints ∧
      d.rest = [] ∧ r.failure.At d hints := by
  obtain ⟨d, hints, htrail, hat⟩ := exists_trail_of_eval (run_of_read h hdetail)
  have hdat := htrail.reaches.at (Cursor.start_at s)
  have hoffset := hdat.offsetOf
  rw [← hat.pos] at hoffset
  have hrest := hdat.2.1
  refine ⟨d.offset, ⟨[], d.offset, d.pos⟩, hints, hoffset, ?_, rfl, hat.pos, hat.within⟩
  refine Trail.cut (v := d.rest) ?_
  have hstart : (Cursor.start (s.take d.offset)).before d.rest = Cursor.start s := by
    rw [hrest]
    exact congrArg Cursor.start (List.take_append_drop d.offset s)
  rw [hstart]
  exact htrail

/-! ## Complete texts -/

/-- The forms, or the expression, stand in the text up to its end. -/
inductive Complete (source : String) : EntryPoint → Cursor → Prop where
  | program {r : Text} {xs : List (SExpr Location)} {c d : Cursor}
    (hr : c.rest = Grammar.header ++ r)
    (hxs : SExpr.StandAfter source xs (c.skip Grammar.header) d)
    (hall : ∀ x ∈ xs, Slot.topLevel.Accepts x) (hd : d.rest = []) : Complete source .program c
  | expression {allowTrailing : Bool} {x : SExpr Location} {c d : Cursor}
    (hx : SExpr.StandAfter source [x] c d) (haccepts : Slot.expr.Accepts x) (hd : d.rest = []) :
    Complete source (.expression allowTrailing) c

theorem exists_elaborateProgram {xs : List (SExpr Location)}
    (h : ∀ x ∈ xs, Slot.topLevel.Accepts x) : ∃ ts, elaborateProgram id xs = some ts := by
  induction xs with
  | nil => exact ⟨[], rfl⟩
  | cons x xs ih =>
      obtain ⟨t, ht⟩ := h x List.mem_cons_self
      obtain ⟨ts, hts⟩ := ih fun y hy => h y (List.mem_cons_of_mem _ hy)
      exact ⟨t :: ts, by rw [elaborateProgram, ht, hts]; rfl⟩

/-- A complete text is accepted, under every ceiling that does not cut the run off. -/
theorem Complete.eval {c : Cursor} (h : Complete source e c) :
    ∃ v d, ∀ k, e.parser.eval (Grammar.rules.call source k) source c = .interrupted .tooDeep ∨
      e.parser.eval (Grammar.rules.call source k) source c = .ok v d := by
  have hG : Grammar.Skippable (.empty True) Cursor.Gap 0 := Grammar.skippable_of_cut trivial
  cases h with
  | @program r xs _ d hr hxs hall hd =>
      obtain ⟨c₁, hgap, hxs⟩ := hxs
      obtain ⟨ts, hts⟩ := exists_elaborateProgram hall
      refine ⟨ts, d, fun k => ?_⟩
      have hrun : Parser.Returns (Grammar.rules.call source k) source (.empty True)
          Grammar.program c ts d :=
        Grammar.returns_program hG hr hgap hxs hts hd (Or.inl trivial) fun _ _ => Or.inl trivial
      exact hrun.eval.imp And.right id
  | @expression allowTrailing x _ d hx haccepts hd =>
      obtain ⟨c₁, hgap, m, d', hstands, hafter, hd'⟩ := hx
      obtain rfl : d = d' := hd'
      obtain ⟨v, hv⟩ := haccepts
      refine ⟨v, d, fun k => ?_⟩
      have hexpr : Parser.Returns (Grammar.rules.call source k) source (.empty True)
          (Grammar.trivia.andThen Grammar.expr) c v d :=
        Parser.Reads.andThen
          (hG.returns_trivia hgap (clear_of_solid hstands.solid.1) (Or.inl trivial))
          (Parser.Reads.close
            (Grammar.reads_expr hG hstands hv (closed_of_empty x m) (Or.inl trivial))
            (hG.returns hafter (clear_of_solid (solid_of_nil hd)) (Or.inl trivial)))
      have heof : Parser.Returns (Grammar.rules.call source k) source (.empty True)
          (.eof : PieParser Unit) d () d := by
        refine Parser.Returns.of_eval fun w hw => ?_
        have hat : (d.before w).atEnd = true := by
          rw [Cursor.atEnd, Cursor.before_rest, hd, show w = [] from hw]
          rfl
        rw [Parser.eval, if_pos hat]
      cases allowTrailing with
      | true => exact hexpr.eval.imp And.right id
      | false =>
          have hboth : Parser.Returns (Grammar.rules.call source k) source (.empty True)
              ((Grammar.trivia.andThen Grammar.expr).followedBy .eof) c v d :=
            Parser.Reads.followedBy hexpr heof
          exact hboth.eval.imp And.right id

/-- A complete text is accepted under every ceiling above its length. -/
theorem Complete.run (h : Complete source e (.start s)) :
    ∃ v d, ∀ k, s.length < k → Grammar.rules.run k source e.parser (.start s) = .ok v d := by
  obtain ⟨v, d, hrun⟩ := h.eval
  exact ⟨v, d, fun k hk => (hrun k).resolve_left (e.finishes hk)⟩

/-- A complete text is accepted, unless it is nested too deeply. -/
theorem Complete.read (h : Complete source e (.start s))
    (hbelow : BelowCeiling (e.read source s ceiling)) :
    ∃ v, e.read source s ceiling = .ok v := by
  obtain ⟨v, d, hrun⟩ := h.eval
  exact ⟨v, read_of_ok ((hrun ceiling).resolve_left (run_ne_tooDeep hbelow))⟩

end EntryPoint

end PieSyntax
