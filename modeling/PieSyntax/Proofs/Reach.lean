import PieSyntax.Parsing.Eval

/-!
# Where a run can go

A run reads forward: it ends on a cursor that lies behind some text which came next, and a failure
is reported at such a cursor too.  Nothing about the parser is needed for this but what the calls of
nonterminals do, so the statement is one induction over parsers and another over the ceiling.

`c.Passes u d` says that `d` is the cursor after `u`, which comes next at `c`.

## Main results

* `Cursor.forward_induction` — induction along what is left to read.
* `Parser.eval_reaches` — a parser goes forward if its calls do.
* `Rules.call_reaches`, `Rules.run_reaches` — with any rules, a run goes forward.
-/

namespace PieSyntax

namespace Cursor

/-- The text `u` comes next at `c`, and `d` is the cursor after it. -/
structure Passes (u : Text) (c d : Cursor) : Prop where
  rest : c.rest = u ++ d.rest
  offset : d.offset = c.offset + u.length
  pos : d.pos = c.pos.advance u

theorem Passes.refl (c : Cursor) : Passes [] c c :=
  ⟨rfl, rfl, (Position.advance_nil c.pos).symm⟩

theorem Passes.trans {u v : Text} {c d e : Cursor} (hcd : Passes u c d) (hde : Passes v d e) :
    Passes (u ++ v) c e := by
  refine ⟨?_, ?_, ?_⟩
  · rw [hcd.rest, hde.rest, List.append_assoc]
  · rw [hde.offset, hcd.offset, List.length_append, Nat.add_assoc]
  · rw [hde.pos, hcd.pos, Position.advance_append]

/-- Skipping what comes next passes it. -/
theorem passes_skip {u r : Text} {c : Cursor} (h : c.rest = u ++ r) : Passes u c (c.skip u) := by
  refine ⟨?_, rfl, rfl⟩
  show c.rest = u ++ c.rest.drop u.length
  rw [h, List.drop_left]

theorem rest_skip {u r : Text} {c : Cursor} (h : c.rest = u ++ r) : (c.skip u).rest = r := by
  show c.rest.drop u.length = r
  rw [h, List.drop_left]

@[simp] theorem skip_skip (c : Cursor) (u v : Text) : (c.skip u).skip v = c.skip (u ++ v) := by
  simp [skip, Position.advance_append, Nat.add_assoc]

/-- The text that was passed determines the cursor after it. -/
theorem Passes.eq_skip {u : Text} {c d : Cursor} (h : Passes u c d) : d = c.skip u := by
  obtain ⟨rest, offset, pos⟩ := d
  have hrest := rest_skip h.rest
  have hoffset := h.offset
  have hpos := h.pos
  simp only at hrest hoffset hpos
  subst hoffset hpos hrest
  rfl

/-- A cursor that passes what comes next stays on the text. -/
theorem Passes.at {text u : Text} {c d : Cursor} (h : Passes u c d) (hc : c.At text) :
    d.At text := by
  rw [h.eq_skip]
  exact skip_at hc ⟨d.rest, h.rest.symm⟩

/-- A run can get from `c` to `d`. -/
def Reaches (c d : Cursor) : Prop := ∃ u, Passes u c d

theorem Reaches.refl (c : Cursor) : c.Reaches c := ⟨[], Passes.refl c⟩

theorem Reaches.trans {c d e : Cursor} (hcd : c.Reaches d) (hde : d.Reaches e) : c.Reaches e := by
  obtain ⟨u, hu⟩ := hcd
  obtain ⟨v, hv⟩ := hde
  exact ⟨u ++ v, hu.trans hv⟩

theorem reaches_skip {u r : Text} {c : Cursor} (h : c.rest = u ++ r) : c.Reaches (c.skip u) :=
  ⟨u, passes_skip h⟩

theorem Reaches.at {text : Text} {c d : Cursor} (h : c.Reaches d) (hc : c.At text) :
    d.At text := by
  obtain ⟨u, hu⟩ := h
  exact hu.at hc

theorem Reaches.offset_le {c d : Cursor} (h : c.Reaches d) : c.offset ≤ d.offset := by
  obtain ⟨u, hu⟩ := h
  rw [hu.offset]
  exact Nat.le_add_right _ _

/-- A cursor on the way to `d` can get there too. -/
theorem Reaches.of_skip {c d : Cursor} {u r w : Text} (h : c.Reaches d) (hu : c.rest = u ++ r)
    (hw : r = w ++ d.rest) : (c.skip u).Reaches d := by
  obtain ⟨x, hx⟩ := h
  have hxuw : x = u ++ w := by
    have happend : x ++ d.rest = u ++ w ++ d.rest := by
      rw [← hx.rest, hu, hw, List.append_assoc]
    exact List.append_cancel_right happend
  have hrest := rest_skip hu
  refine ⟨w, hrest.trans hw, ?_, ?_⟩
  · rw [hx.offset, hxuw, List.length_append]
    exact (Nat.add_assoc _ _ _).symm
  · rw [hx.pos, hxuw, Position.advance_append]
    rfl

/-- How much is left to read tells how far a cursor has got. -/
theorem Reaches.eq_of_rest {c d : Cursor} (h : c.Reaches d) (hrest : d.rest = c.rest) : d = c := by
  obtain ⟨u, hu⟩ := h
  have hnil : u = [] := by
    have hlen := congrArg List.length hu.rest
    rw [hrest, List.length_append] at hlen
    exact List.eq_nil_of_length_eq_zero (by omega)
  rw [hu.eq_skip, hnil, skip_nil]

/-- A cursor with less left to read has moved. -/
theorem Reaches.offset_ne {c d : Cursor} (h : c.Reaches d)
    (hlt : d.rest.length < c.rest.length) : d.offset ≠ c.offset := by
  obtain ⟨u, hu⟩ := h
  have hoffset := hu.offset
  have hlen := congrArg List.length hu.rest
  rw [List.length_append] at hlen
  omega

/-- A cursor that has moved has less left to read. -/
theorem Reaches.rest_lt {c d : Cursor} (h : c.Reaches d) (hne : d.offset ≠ c.offset) :
    d.rest.length < c.rest.length := by
  obtain ⟨u, hu⟩ := h
  have hoffset := hu.offset
  rw [hu.rest, List.length_append]
  omega

/-- A cursor that moves passes a character, and then maybe more. -/
theorem Reaches.exists_cons {c d : Cursor} (h : c.Reaches d) (hne : d.offset ≠ c.offset) :
    ∃ ch t, c.rest = ch :: t ∧ d.rest.length ≤ t.length := by
  have hlt := h.rest_lt hne
  obtain ⟨ch, t, ht⟩ := List.exists_cons_of_length_pos (Nat.zero_lt_of_lt hlt)
  rw [ht, List.length_cons] at hlt
  exact ⟨ch, t, ht, Nat.le_of_lt_succ hlt⟩

/-- Induction along what is left to read: a property holds at every cursor if it holds at each one
whenever it holds wherever less is left. -/
@[elab_as_elim]
theorem forward_induction {motive : Cursor → Prop}
    (step : ∀ c, (∀ d, d.rest.length < c.rest.length → motive d) → motive c) (c : Cursor) :
    motive c :=
  (measure fun c : Cursor => c.rest.length).wf.induction c step

/-- Getting further means standing at a later position, or staying. -/
theorem Reaches.pos_le {c d : Cursor} (h : c.Reaches d) : c.pos ≤ d.pos := by
  obtain ⟨u, hu⟩ := h
  rw [hu.pos]
  by_cases hnil : u = []
  · rw [hnil, Position.advance_nil]
    exact Or.inr rfl
  · exact Or.inl (Position.lt_advance c.pos hnil)

end Cursor

theorem Position.le_trans {p q r : Position} (hpq : p ≤ q) (hqr : q ≤ r) : p ≤ r := by
  rcases hpq with hlt | rfl
  · rcases hqr with hlt' | rfl
    · exact Or.inl (Position.lt_trans hlt hlt')
    · exact Or.inl hlt
  · exact hqr

theorem Failure.pos_le_furthest (f g : Failure) : g.pos ≤ (f.furthest g).pos := by
  rcases Position.lt_trichotomy f.pos g.pos with h | h | h
  · rw [Failure.furthest_of_lt h]
    exact Or.inr rfl
  · rw [Failure.furthest_of_pos_eq h]
    exact Or.inr h.symm
  · rw [Failure.furthest_of_gt h]
    exact Or.inl h

namespace Outcome

variable {α β : Type}

/-- A success lies ahead of `c`, and so does the place of a failure. -/
def AheadOf (c : Cursor) : Outcome α → Prop
  | .ok _ d => c.Reaches d
  | .fail f => ∃ d, c.Reaches d ∧ f.pos = d.pos
  | .interrupted _ => True

theorem AheadOf.failAt (c : Cursor) (e : Expectation) :
    (Outcome.failAt c e : Outcome α).AheadOf c :=
  ⟨c, Cursor.Reaches.refl c, rfl⟩

/-- What lies ahead of a cursor further on lies ahead. -/
theorem AheadOf.of_reaches {c d : Cursor} (h : c.Reaches d) {o : Outcome α} (ho : o.AheadOf d) :
    o.AheadOf c := by
  cases o with
  | ok a e => exact h.trans ho
  | fail f =>
      obtain ⟨e, he, hpos⟩ := ho
      exact ⟨e, h.trans he, hpos⟩
  | interrupted why => trivial

theorem AheadOf.andThen {c : Cursor} {o : Outcome α} {k : α → Cursor → Outcome β}
    (ho : o.AheadOf c) (hk : ∀ a d, (k a d).AheadOf d) : (o.andThen k).AheadOf c := by
  cases o with
  | ok a d => exact (hk a d).of_reaches ho
  | fail f => exact ho
  | interrupted why => trivial

/-- The furthest of two failures is one of their places. -/
theorem furthest_pos_eq_or (f g : Failure) :
    (f.furthest g).pos = f.pos ∨ (f.furthest g).pos = g.pos := by
  rcases Position.lt_trichotomy f.pos g.pos with h | h | h
  · rw [Failure.furthest_of_lt h]
    exact Or.inr rfl
  · rw [Failure.furthest_of_pos_eq h]
    exact Or.inl rfl
  · rw [Failure.furthest_of_gt h]
    exact Or.inl rfl

theorem AheadOf.furthest {c : Cursor} {f g : Failure}
    (hf : (Outcome.fail f : Outcome α).AheadOf c) (hg : (Outcome.fail g : Outcome β).AheadOf c) :
    (Outcome.fail (f.furthest g) : Outcome α).AheadOf c := by
  rcases furthest_pos_eq_or f g with h | h
  · obtain ⟨d, hd, hpos⟩ := hf
    exact ⟨d, hd, h.trans hpos⟩
  · obtain ⟨d, hd, hpos⟩ := hg
    exact ⟨d, hd, h.trans hpos⟩

theorem AheadOf.orElse {c : Cursor} {o : Outcome α} {k : Unit → Outcome α}
    (ho : o.AheadOf c) (hk : (k ()).AheadOf c) : (o.orElse k).AheadOf c := by
  cases o with
  | ok a d => exact ho
  | interrupted why => trivial
  | fail f =>
      unfold Outcome.orElse
      cases hkk : k () with
      | ok a d => rw [hkk] at hk; exact hk
      | interrupted why => trivial
      | fail g =>
          rw [hkk] at hk
          exact ho.furthest hk

theorem manyLoop_aheadOf {item : Cursor → Outcome α} (label : Unit → String)
    (hitem : ∀ c, (item c).AheadOf c) (fuel : Text) (c : Cursor) (done : List α) :
    (manyLoop item label fuel c done).AheadOf c := by
  fun_induction manyLoop item label fuel c done with
  | case1 fuel c done f h => exact Cursor.Reaches.refl c
  | case2 => trivial
  | case3 => trivial
  | case4 => trivial
  | case5 c done a d h hd ch fuel ih =>
      have hc := hitem c
      rw [h] at hc
      exact ih.of_reaches hc

theorem manyTillLoop_aheadOf {item : Cursor → Outcome α} {stop : Cursor → Outcome β}
    (label : Unit → String) (hitem : ∀ c, (item c).AheadOf c) (hstop : ∀ c, (stop c).AheadOf c)
    (fuel : Text) (c : Cursor) (done : List α) :
    (manyTillLoop item stop label fuel c done).AheadOf c := by
  fun_induction manyTillLoop item stop label fuel c done with
  | case1 fuel c done b d h =>
      have hs := hstop c
      rw [h] at hs
      exact hs
  | case2 => trivial
  | case3 fuel c done f hf g hg =>
      have hs := hstop c
      have hc := hitem c
      rw [hf] at hs
      rw [hg] at hc
      exact hs.furthest hc
  | case4 => trivial
  | case5 => trivial
  | case6 => trivial
  | case7 c done f hf a d h hd ch fuel ih =>
      have hc := hitem c
      rw [h] at hc
      exact ih.of_reaches hc

end Outcome

namespace Cursor

theorem readChar_aheadOf (test : Char → Bool) (e : Expectation) (c : Cursor) :
    (c.readChar test e).AheadOf c := by
  unfold readChar
  split
  · exact Outcome.AheadOf.failAt c .endOfInput
  · rename_i ch rest hrest
    split
    · refine ⟨[ch], ?_, rfl, ?_⟩
      · simpa using hrest
      · simp [Position.advance_cons]
    · exact Outcome.AheadOf.failAt c e

theorem readText_aheadOf (s : Text) (c : Cursor) : (c.readText s).AheadOf c := by
  induction s generalizing c with
  | nil => exact Reaches.refl c
  | cons ch s ih => exact (readChar_aheadOf _ _ c).andThen fun _ d => ih d

end Cursor

variable {N : Type} {R : N → Type}

/-- A parser goes forward if the nonterminals that it calls do. -/
theorem Parser.eval_reaches {call : (n : N) → Cursor → Outcome (R n)}
    (hcall : ∀ n c, (call n c).AheadOf c) (source : String) {α : Type} (p : Parser N R α)
    (c : Cursor) : (p.eval call source c).AheadOf c := by
  induction p generalizing c with
  | pure a => exact Cursor.Reaches.refl c
  | fail e => exact Outcome.AheadOf.failAt c e
  | anyChar => exact c.readChar_aheadOf _ _
  | char ch => exact c.readChar_aheadOf _ _
  | satisfy description test => exact c.readChar_aheadOf _ _
  | text s =>
      exact (c.readText_aheadOf s).andThen fun _ d => Cursor.Reaches.refl d
  | spanning test =>
      exact Cursor.reaches_skip (List.takeWhile_append_dropWhile).symm
  | eof =>
      unfold Parser.eval
      split
      · exact Cursor.Reaches.refl c
      · exact Outcome.AheadOf.failAt c .endOfInput
  | refine p judge ih =>
      unfold Parser.eval
      have hp := ih c
      cases h : p.eval call source c with
      | fail f => rw [h] at hp; exact hp
      | interrupted why => trivial
      | ok a d =>
          rw [h] at hp
          simp only [Outcome.andThen_ok]
          cases judge a with
          | accept b => exact hp
          | reject e => exact Outcome.AheadOf.failAt c e
          | interrupt why => trivial
  | bind p next ihp ihnext => exact (ihp c).andThen fun a d => ihnext a d
  | alternatives first rest ih ihs =>
      exact Outcome.choose_induction (fun _ _ => Outcome.AheadOf.orElse) (ih c) fun i => ihs i c
  | many p ih => exact Outcome.manyLoop_aheadOf _ ih c.rest c []
  | manyTill item stop ihitem ihstop =>
      exact Outcome.manyTillLoop_aheadOf _ ihitem ihstop c.rest c []
  | located p ih => exact (ih c).andThen fun _ d => Cursor.Reaches.refl d
  | named name p ih => exact ih c
  | call n => exact hcall n c

/-- A run that succeeds gets to where it ends. -/
theorem Parser.reaches_of_eval {call : (n : N) → Cursor → Outcome (R n)}
    (hcall : ∀ n c, (call n c).AheadOf c) {source : String} {α : Type} {p : Parser N R α}
    {c d : Cursor} {a : α} (h : p.eval call source c = .ok a d) : c.Reaches d := by
  have hahead := eval_reaches hcall source p c
  rw [h] at hahead
  exact hahead

/-- Calls go forward under any ceiling. -/
theorem Rules.call_reaches (rules : Rules N R) (source : String) (ceiling : Nat) (n : N)
    (c : Cursor) : (rules.call source ceiling n c).AheadOf c := by
  induction ceiling generalizing n c with
  | zero => trivial
  | succ ceiling ih => exact Parser.eval_reaches ih source (rules n) c

/-- Runs go forward under any ceiling. -/
theorem Rules.run_reaches (rules : Rules N R) (ceiling : Nat) (source : String) {α : Type}
    (p : Parser N R α) (c : Cursor) : (rules.run ceiling source p c).AheadOf c :=
  Parser.eval_reaches (rules.call_reaches source ceiling) source p c

theorem Rules.reaches_of_run {rules : Rules N R} {ceiling : Nat} {source : String} {α : Type}
    {p : Parser N R α} {c d : Cursor} {a : α} (h : rules.run ceiling source p c = .ok a d) :
    c.Reaches d :=
  Parser.reaches_of_eval (rules.call_reaches source ceiling) h

end PieSyntax
