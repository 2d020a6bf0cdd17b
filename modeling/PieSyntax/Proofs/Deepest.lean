import PieSyntax.Proofs.Breaking

/-!
# How deep the reported failure lies

A compound expression is read item by item.  When an item that must be there is rejected, so is the
whole compound, and its report lies no sooner than that of the item.  A repetition that tries one more
item drops its failure, however far the attempt got: after it only the closing parenthesis is looked
for, and that is looked for where the item was tried.

So the deepest failure of all that was tried is not always the one that is reported.

## Main results

* `Grammar.eval_inside_of_next` — a list ends at the failure of an item that must be there, and where a
  further item was tried.
* `Grammar.report_of_failing_item` — the report of a compound against the failure of one of its items.
* `Grammar.dropped_failure_lies_deeper` — an argument whose failure lies deeper than the report.
-/

namespace PieSyntax

/-- After the row of slots, the shape asks for the given one. -/
inductive Shape.Next (σ : Shape) : List Slot → Slot → Prop where
  /-- One that must be there. -/
  | first {row rest : List Slot} {t : Slot} (h : σ.first = row ++ t :: rest) : σ.Next row t
  /-- One of any number of further ones. -/
  | more {t : Slot} (n : Nat) (h : σ.more = some t) : σ.Next (σ.first ++ List.replicate n t) t

namespace Outcome

variable {α : Type} {o : Outcome α} {q : Position}

/-- The run ends at the place, in a success or in a failure. -/
def EndsAt (o : Outcome α) (q : Position) : Prop :=
  (∃ a d, o = .ok a d ∧ q = d.pos) ∨ ∃ f, o = .fail f ∧ q = f.pos

theorem EndsAt.eq_of_ok {a : α} {d : Cursor} (h : o.EndsAt q) (ho : o = .ok a d) : q = d.pos := by
  subst ho
  rcases h with ⟨a', d', ho, rfl⟩ | ⟨f, ho, rfl⟩
  · cases ho
    rfl
  · cases ho

theorem EndsAt.eq_of_fail {f : Failure} (h : o.EndsAt q) (ho : o = .fail f) : q = f.pos := by
  subst ho
  rcases h with ⟨a, d, ho, rfl⟩ | ⟨f', ho, rfl⟩
  · cases ho
  · cases ho
    rfl

theorem EndsAt.not_interrupted {why : Interruption} (h : o.EndsAt q) : o ≠ .interrupted why := by
  rintro rfl
  rcases h with ⟨a, d, ho, -⟩ | ⟨f, ho, -⟩ <;> cases ho

/-- What lies ahead of a cursor ends there or later. -/
theorem EndsAt.le {c : Cursor} (h : o.EndsAt q) (hahead : o.AheadOf c) : c.pos ≤ q := by
  rcases h with ⟨a, d, rfl, rfl⟩ | ⟨f, rfl, rfl⟩
  · exact Cursor.Reaches.pos_le hahead
  · obtain ⟨d, hd, hpos⟩ := hahead
    rw [hpos]
    exact hd.pos_le

end Outcome

namespace Grammar

open PieSyntax.Parser

/-- An opening parenthesis and the trivia after it. -/
def opening : PieParser (Located Char) := lexeme skip (.char '(')

/-- The parenthesis at the first cursor opens a compound expression, and in it a list of the shape is
read, whose first item is looked for at the second cursor. -/
inductive ListAt (source : String) (k : Nat) (c : Cursor) : Shape → Cursor → Prop where
  /-- A function and its arguments. -/
  | application {x : Located Char} {c₁ : Cursor}
    (hopen : opening.eval (rules.call source k) source c = .ok x c₁) :
    ListAt source k c .application c₁
  /-- What follows a keyword; after an arrow these are any number of types. -/
  | keyword {x : Located Char} {head : Located Head} {c₁ c₂ : Cursor}
    (hopen : opening.eval (rules.call source k) source c = .ok x c₁)
    (hkey : (keywordTable skip headTable).eval (rules.call source k) source c₁ = .ok head c₂) :
    ListAt source k c head.value.shape c₂
  /-- The names that an abstraction binds. -/
  | names {x y : Located Char} {loc : Location} {c₁ c₂ c₃ : Cursor}
    (hopen : opening.eval (rules.call source k) source c = .ok x c₁)
    (hkey : (keywordTable skip headTable).eval (rules.call source k) source c₁ =
      .ok ⟨loc, .lambda⟩ c₂)
    (hlist : opening.eval (rules.call source k) source c₂ = .ok y c₃) :
    ListAt source k c .names c₃
  /-- The typed names of a dependent type. -/
  | pairs {x y : Located Char} {loc : Location} {q : Quantifier} {c₁ c₂ c₃ : Cursor}
    (hopen : opening.eval (rules.call source k) source c = .ok x c₁)
    (hkey : (keywordTable skip headTable).eval (rules.call source k) source c₁ =
      .ok ⟨loc, .quantifier q⟩ c₂)
    (hlist : opening.eval (rules.call source k) source c₂ = .ok y c₃) :
    ListAt source k c .pairs c₃

variable {source : String} {k : Nat} {c c₁ c₂ d : Cursor} {f g : Failure} {q : Position}
variable {σ : Shape} {row rest : List Slot} {t : Slot} {more : Option Slot}

theorem pos_le_of_eval_fail {α : Type} {p : PieParser α}
    (h : p.eval (rules.call source k) source c = .fail f) : c.pos ≤ f.pos :=
  Outcome.EndsAt.le (Or.inr ⟨f, h, rfl⟩) (eval_reaches (rules.call_reaches source k) source p c)

/-! ## Items -/

/-- After the items before it, one that must be there decides. -/
theorem eval_items_of_first
    (hrow : (items row none).eval (rules.call source k) source c = .ok () d)
    (hitem : (slot t).eval (rules.call source k) source d = .fail f) :
    (items (row ++ t :: rest) more).eval (rules.call source k) source c = .fail f := by
  induction row generalizing c with
  | nil =>
      cases hrow
      rw [List.nil_append, items, Parser.eval, hitem, Outcome.andThen_fail]
  | cons s row ih =>
      obtain ⟨u, c₁, hs, hrow⟩ := eval_bind_ok hrow
      rw [List.cons_append, items, Parser.eval, hs, Outcome.andThen_ok]
      exact ih hrow

/-- The failure that ends a repetition is dropped. -/
theorem eval_many_of_fail {n : Nat}
    (hrow : (items (List.replicate n t) none).eval (rules.call source k) source c = .ok () d)
    (hitem : (slot t).eval (rules.call source k) source d = .fail f) :
    (∃ us, (slot t).many.eval (rules.call source k) source c = .ok us d) ∨
      ∃ why, (slot t).many.eval (rules.call source k) source c = .interrupted why := by
  induction n generalizing c with
  | zero =>
      cases hrow
      exact Or.inl ⟨[], eval_many_last (rules.call_reaches source k) hitem⟩
  | succ n ih =>
      obtain ⟨u, e, hs, hrow⟩ := eval_bind_ok hrow
      by_cases hstall : e.offset = c.offset
      · rw [eval_many (rules.call_reaches source k), hs]
        exact Or.inr ⟨_, if_pos hstall⟩
      · rw [eval_many_next (rules.call_reaches source k) hs hstall]
        rcases ih hrow with ⟨us, hus⟩ | ⟨why, hwhy⟩
        · exact Or.inl ⟨u :: us, by rw [hus, Outcome.andThen_ok]⟩
        · exact Or.inr ⟨why, by rw [hwhy, Outcome.andThen_interrupted]⟩

/-- A list ends at the failure of an item that must be there, and where a further item was tried. -/
theorem eval_inside_of_next (hnext : σ.Next row t)
    (hrow : (items row none).eval (rules.call source k) source c = .ok () d)
    (hitem : (slot t).eval (rules.call source k) source d = .fail f) :
    (row.length < σ.first.length ∧ (inside σ).eval (rules.call source k) source c = .fail f) ∨
      (σ.first.length ≤ row.length ∧
        ((inside σ).eval (rules.call source k) source c = .ok () d ∨
          ∃ why, (inside σ).eval (rules.call source k) source c = .interrupted why)) := by
  cases hnext with
  | first h =>
      rw [inside, h]
      exact Or.inl ⟨by simp, eval_items_of_first hrow hitem⟩
  | more n h =>
      refine Or.inr ⟨by simp, ?_⟩
      rw [inside, h]
      generalize σ.first = first at hrow
      induction first generalizing c with
      | nil =>
          rw [items, ignored]
          unfold Parser.map
          rw [Parser.eval]
          rcases eval_many_of_fail hrow hitem with ⟨us, hus⟩ | ⟨why, hwhy⟩
          · exact Or.inl (by rw [hus]; rfl)
          · exact Or.inr ⟨why, by rw [hwhy]; rfl⟩
      | cons s first ih =>
          obtain ⟨u, e, hs, hrow⟩ := eval_bind_ok hrow
          rw [items, Parser.eval, hs, Outcome.andThen_ok]
          exact ih hrow

/-! ## Compounds -/

/-- An expression that starts with a parenthesis is rejected where what it holds ends. -/
theorem endsAt_compoundInside {x : Located Char}
    (hopen : opening.eval (rules.call source k) source c = .ok x c₁)
    (h : expr.eval (rules.call source k) source c = .fail g) :
    (compoundInside.eval (rules.call source k) source c₁).EndsAt g.pos := by
  obtain ⟨⟨r, hr⟩, -, hskip⟩ := eval_lexeme_char_ok hopen
  obtain ⟨g', hchoice, -⟩ := eval_describe_fail h
  obtain ⟨g₀, hg₀, -⟩ := exists_fail_of_eval_choice hchoice compound (by simp)
  obtain ⟨c₂, e, hints, hskip', -, hat, hreach, -⟩ :=
    stuck_of_eval_compound (callsStuck source k) hr hg₀
  -- Of the alternatives only the compound gets beyond the parenthesis.
  have hpos : g.pos = g₀.pos := by
    have hg : g.At e hints := by
      refine at_of_eval_expr_open hr ((gap_of_eval_skip hskip').reaches.trans hreach)
        (fun g₁ hg₁ => ?_) h
      rw [hg₀] at hg₁
      cases hg₁
      exact hat
    rw [hg.pos, hat.pos]
  rcases eval_parens_fail (runsAs_compound.eval_eq_fail hg₀) with
    ⟨hhead, -⟩ | ⟨r', c₁', hr', hskip₁, hfail | ⟨u, d, hok, hat⟩⟩
  · exact absurd (by rw [hr]; rfl) hhead
  · rw [hskip] at hskip₁
    cases hskip₁
    exact Or.inr ⟨g₀, hfail, hpos⟩
  · rw [hskip] at hskip₁
    cases hskip₁
    exact Or.inl ⟨u, d, hok, hpos.trans hat.pos⟩

/-- A keyword is no expression, and is rejected where it starts. -/
theorem eval_slot_of_keyword {head : Located Head}
    (hkey : (keywordTable skip headTable).eval (rules.call source k) source c₁ = .ok head c₂) :
    (∀ u e, (slot .expr).eval (rules.call source k) source c₁ ≠ .ok u e) ∧
      ∀ f, (slot .expr).eval (rules.call source k) source c₁ = .fail f → f.pos = c₁.pos := by
  obtain ⟨name, hword, hlookup, -, hskip⟩ := eval_keywordTable_ok hkey
  obtain ⟨hreserved, hconstant⟩ := reserved_of_lookup_head hlookup
  cases k with
  | zero => cases hskip
  | succ k =>
      refine ⟨fun u e h => ?_, fun f h => ?_⟩
      · obtain ⟨v, hv, -⟩ := eval_map_ok h
        exact eval_expr_ne_ok_of_reserved hword hreserved hconstant v e hv
      · have hexpr : innerExpr.eval (rules.call source (k + 1)) source c₁ = .fail f :=
          eval_map_fail h
        exact (at_of_eval_expr_of_reserved hword hexpr).pos

/-- After a keyword, the items of its form decide. -/
theorem endsAt_of_keyword {head : Located Head}
    (hkey : (keywordTable skip headTable).eval (rules.call source k) source c₁ = .ok head c₂)
    (h : (compoundInside.eval (rules.call source k) source c₁).EndsAt q) :
    ((inside head.value.shape).eval (rules.call source k) source c₂).EndsAt q := by
  obtain ⟨hnot, hpos⟩ := eval_slot_of_keyword hkey
  rcases h with ⟨u, e, hok, rfl⟩ | ⟨g, hfail, rfl⟩
  · rcases eval_orElse_ok hok with hdispatch | happ
    · obtain ⟨head', c₂', hkey', hbody⟩ := eval_bind_ok hdispatch
      rw [hkey] at hkey'
      cases hkey'
      exact Or.inl ⟨u, e, hbody, rfl⟩
    · obtain ⟨v, d, hhead, -⟩ := eval_bind_ok happ
      exact absurd hhead (hnot v d)
  · obtain ⟨g₁, g₂, hdispatch, happ, rfl⟩ := eval_orElse_fail hfail
    rcases eval_bind_fail hdispatch with hkey' | ⟨head', c₂', hkey', hbody⟩
    · rw [hkey] at hkey'
      cases hkey'
    · rw [hkey] at hkey'
      cases hkey'
      refine Or.inr ⟨g₁, hbody, ?_⟩
      have hg₂ : g₂.pos = c₁.pos := by
        rcases eval_bind_fail happ with hhead | ⟨v, d, hhead, -⟩
        · exact hpos g₂ hhead
        · exact absurd hhead (hnot v d)
      have hle := pos_le_of_eval_fail hdispatch
      exact Failure.pos_furthest_left rfl (hg₂ ▸ hle)

/-- After a head that is an expression, the items of the application decide. -/
theorem endsAt_of_head {u : Unit} {e : Cursor}
    (hhead : (slot .expr).eval (rules.call source k) source c₁ = .ok u e)
    (h : (compoundInside.eval (rules.call source k) source c₁).EndsAt q) :
    ((inside .application).eval (rules.call source k) source c₁).EndsAt q := by
  have hkey : ∀ head c₂,
      (keywordTable skip headTable).eval (rules.call source k) source c₁ ≠ .ok head c₂ :=
    fun head c₂ hkey => (eval_slot_of_keyword hkey).1 u e hhead
  rcases h with ⟨v, d, hok, rfl⟩ | ⟨g, hfail, rfl⟩
  · rcases eval_orElse_ok hok with hdispatch | happ
    · obtain ⟨head, c₂, hdispatch, -⟩ := eval_bind_ok hdispatch
      exact absurd hdispatch (hkey head c₂)
    · exact Or.inl ⟨v, d, happ, rfl⟩
  · obtain ⟨g₁, g₂, hdispatch, happ, rfl⟩ := eval_orElse_fail hfail
    refine Or.inr ⟨g₂, happ, ?_⟩
    rcases eval_bind_fail hdispatch with hkey' | ⟨head, c₂, hkey', -⟩
    · obtain ⟨x, m, hx, -, -⟩ := accepts_of_eval_slot hhead
      have hg₁ : g₁.pos = c₁.pos := by
        rcases eval_keywordTable_fail hkey' with hword | ⟨-, hat⟩
        · exact (at_of_stands hx hword).pos
        · exact hat.pos
      have hle := pos_le_of_eval_fail happ
      exact Failure.pos_furthest_right (hg₁ ▸ hle) rfl
    · exact absurd hkey' (hkey head c₂)

/-- A head that is rejected is rejected no later than the compound. -/
theorem pos_le_of_head
    (hhead : (slot .expr).eval (rules.call source k) source c₁ = .fail f)
    (h : (compoundInside.eval (rules.call source k) source c₁).EndsAt q) : f.pos ≤ q := by
  have happ : (inside .application).eval (rules.call source k) source c₁ = .fail f := by
    rw [inside, Shape.application, items, Parser.eval, hhead, Outcome.andThen_fail]
  rcases h with ⟨u, e, hok, rfl⟩ | ⟨g, hfail, rfl⟩
  · rcases eval_orElse_ok hok with hdispatch | happ'
    · obtain ⟨head, c₂, hkey, -⟩ := eval_bind_ok hdispatch
      rw [(eval_slot_of_keyword hkey).2 f hhead]
      exact Outcome.EndsAt.le (Or.inl ⟨u, e, hok, rfl⟩)
        (eval_reaches (rules.call_reaches source k) source compoundInside c₁)
    · rw [happ] at happ'
      cases happ'
  · obtain ⟨g₁, g₂, -, happ', rfl⟩ := eval_orElse_fail hfail
    rw [happ] at happ'
    cases happ'
    exact g₁.pos_le_furthest f

/-- What holds the items of a list ends where they end, or goes on after their parenthesis. -/
def Closes (o : Outcome Unit) (q : Position) : Prop :=
  o.EndsAt q ∨ ∃ d, o = .ok () d ∧ d.rest.head? = some ')' ∧ d.pos ≤ q

/-- Where a list of names was read, its items end before its parenthesis. -/
theorem exists_inside_of_bracket {s : Slot} {u : Unit} {y : Located Char} {c₃ : Cursor}
    (hlike : Parser.RunsAs (slot s) (parens skip (inside σ)))
    (hopen : opening.eval (rules.call source k) source c₂ = .ok y c₃)
    (h : (slot s).eval (rules.call source k) source c₂ = .ok u d) :
    ∃ e, (inside σ).eval (rules.call source k) source c₃ = .ok () e ∧
      e.rest.head? = some ')' ∧ e.pos ≤ d.pos := by
  obtain ⟨v, hparens⟩ := hlike.eval_eq_ok h
  obtain ⟨z, e, hbody, hclose⟩ := eval_followedBy_ok hparens
  obtain ⟨x, c₃', hopen', hinside⟩ := eval_andThen_ok hbody
  have hopened : opening.eval (rules.call source k) source c₂ = .ok x c₃' := hopen'
  rw [hopen] at hopened
  cases hopened
  obtain ⟨⟨r, hr⟩, -, hskip⟩ := eval_lexeme_char_ok hclose
  have hreach : e.Reaches d :=
    (Cursor.reaches_skip (u := [')']) hr).trans (gap_of_eval_skip hskip).reaches
  exact ⟨e, hinside, by rw [hr]; rfl, hreach.pos_le⟩

/-- A list of names is the first item of its form. -/
theorem closes_of_bracket {s : Slot} {y : Located Char} {c₃ : Cursor}
    (hlike : Parser.RunsAs (slot s) (parens skip (inside σ)))
    (hopen : opening.eval (rules.call source k) source c₂ = .ok y c₃)
    (h : ((items (s :: rest) more).eval (rules.call source k) source c₂).EndsAt q) :
    Closes ((inside σ).eval (rules.call source k) source c₃) q := by
  have hread : ∀ {u e₁}, (slot s).eval (rules.call source k) source c₂ = .ok u e₁ → e₁.pos ≤ q →
      Closes ((inside σ).eval (rules.call source k) source c₃) q := by
    intro u e₁ hs hle
    obtain ⟨e, hinside, hhead, hle'⟩ := exists_inside_of_bracket hlike hopen hs
    exact Or.inr ⟨e, hinside, hhead, Position.le_trans hle' hle⟩
  rcases h with ⟨u, e, hok, rfl⟩ | ⟨f, hfail, rfl⟩
  · obtain ⟨v, e₁, hs, hrest⟩ := eval_bind_ok hok
    exact hread hs (Outcome.EndsAt.le (Or.inl ⟨u, e, hrest, rfl⟩)
      (eval_reaches (rules.call_reaches source k) source (items rest more) e₁))
  · rcases eval_bind_fail hfail with hs | ⟨v, e₁, hs, hrest⟩
    · obtain ⟨⟨r, hr⟩, -, hskip⟩ := eval_lexeme_char_ok hopen
      rcases eval_parens_fail (hlike.eval_eq_fail hs) with
        ⟨hhead, -⟩ | ⟨r', c₃', hr', hskip', hinside | ⟨w, d, hinside, hat⟩⟩
      · exact absurd (by rw [hr]; rfl) hhead
      · rw [hskip] at hskip'
        cases hskip'
        exact Or.inl (Or.inr ⟨f, hinside, rfl⟩)
      · rw [hskip] at hskip'
        cases hskip'
        exact Or.inl (Or.inl ⟨w, d, hinside, hat.pos⟩)
    · exact hread hs (pos_le_of_eval_fail hrest)

/-- What is read for a list of a compound ends where the compound is rejected, or before its
parenthesis.  At the start of an application the rejected head may also be a keyword. -/
theorem closes_of_eval_expr (hlist : ListAt source k c σ c₁) (hnext : σ.Next row t)
    (hrow : (items row none).eval (rules.call source k) source c₁ = .ok () d)
    (hitem : (slot t).eval (rules.call source k) source d = .fail f)
    (h : expr.eval (rules.call source k) source c = .fail g) :
    Closes ((inside σ).eval (rules.call source k) source c₁) g.pos ∨
      (row.length < σ.first.length ∧ f.pos ≤ g.pos) := by
  cases hlist with
  | application hopen =>
      have hinside := endsAt_compoundInside hopen h
      cases row with
      | nil =>
          cases hrow
          cases hnext with
          | first hfirst =>
              obtain rfl : Slot.expr = t := (List.cons.inj hfirst).1
              exact Or.inr ⟨by decide, pos_le_of_head hitem hinside⟩
      | cons s row =>
          obtain ⟨u, e, hhead, -⟩ := eval_bind_ok hrow
          obtain rfl : s = .expr := by
            generalize hwhole : s :: row = whole at hnext
            cases hnext with
            | first hfirst =>
                subst hwhole
                exact (List.cons.inj hfirst).1.symm
            | more n _ => exact (List.cons.inj hwhole).1
          exact Or.inl (Or.inl (endsAt_of_head hhead hinside))
  | keyword hopen hkey =>
      exact Or.inl (Or.inl (endsAt_of_keyword hkey (endsAt_compoundInside hopen h)))
  | names hopen hkey hlist =>
      exact Or.inl (closes_of_bracket runsAs_binders hlist
        (endsAt_of_keyword hkey (endsAt_compoundInside hopen h)))
  | pairs hopen hkey hlist =>
      exact Or.inl (closes_of_bracket runsAs_typedBinders hlist
        (endsAt_of_keyword hkey (endsAt_compoundInside hopen h)))

/-- When the items before it were accepted and the next item of a list is rejected, a report on the
whole compound lies where that item was tried or later, and no sooner than the failure of the item if
this one had to be there.  The failure of a further item is dropped: unless the list is closed there,
the report lies where the item was tried. -/
theorem report_of_failing_item (hlist : ListAt source k c σ c₁) (hnext : σ.Next row t)
    (hrow : (items row none).eval (rules.call source k) source c₁ = .ok () d)
    (hitem : (slot t).eval (rules.call source k) source d = .fail f)
    (h : expr.eval (rules.call source k) source c = .fail g) :
    d.pos ≤ g.pos ∧ (row.length < σ.first.length → f.pos ≤ g.pos) ∧
      (σ.first.length ≤ row.length → d.rest.head? ≠ some ')' → g.pos = d.pos) := by
  have hle := pos_le_of_eval_fail hitem
  rcases closes_of_eval_expr hlist hnext hrow hitem h with hcloses | ⟨hlt, hfg⟩
  · rcases eval_inside_of_next hnext hrow hitem with ⟨hlt, hfail⟩ | ⟨hge, hok | ⟨why, hwhy⟩⟩
    · -- The item must be there, so the compound is rejected for it.
      rcases hcloses with hends | ⟨e, hok, -⟩
      · have hpos := hends.eq_of_fail hfail
        exact ⟨hpos ▸ hle, fun _ => Or.inr hpos.symm, fun hge => absurd hlt (Nat.not_lt.mpr hge)⟩
      · rw [hfail] at hok
        cases hok
    · -- The list ends before the item.
      rcases hcloses with hends | ⟨e, hok', hhead, hle'⟩
      · have hpos := hends.eq_of_ok hok
        exact ⟨Or.inr hpos.symm, fun hlt => absurd hlt (Nat.not_lt.mpr hge), fun _ _ => hpos⟩
      · rw [hok] at hok'
        cases hok'
        exact ⟨hle', fun hlt => absurd hlt (Nat.not_lt.mpr hge), fun _ hne => absurd hhead hne⟩
    · rcases hcloses with hends | ⟨e, hok, -⟩
      · exact absurd hwhy hends.not_interrupted
      · rw [hwhy] at hok
        cases hok
  · exact ⟨Position.le_trans hle hfg, fun _ => hfg, fun hge => absurd hlt (Nat.not_lt.mpr hge)⟩

/-- An application whose only argument is an abstraction over a constant. -/
def firstArgument : Text := "(f (lambda (U) x))".toList

/-- The first argument must be there, and the report lies no sooner than its failure. -/
theorem report_firstArgument :
    ∃ f g, (slot .expr).eval (rules.call "f.pie" nestingCeiling) "f.pie"
        ((Cursor.start firstArgument).skip "(f ".toList) = .fail f ∧
      expr.eval (rules.call "f.pie" nestingCeiling) "f.pie" (.start firstArgument) = .fail g ∧
      f.pos = ⟨1, 13⟩ ∧ f.pos ≤ g.pos := by
  obtain ⟨x, hopen⟩ := exists_ok_of_reached? (d := (Cursor.start firstArgument).skip ['('])
    (o := opening.eval (rules.call "f.pie" nestingCeiling) "f.pie" (.start firstArgument))
    (by decide +kernel)
  obtain ⟨u, hrow⟩ := exists_ok_of_reached? (d := (Cursor.start firstArgument).skip "(f ".toList)
    (o := (items [.expr] none).eval (rules.call "f.pie" nestingCeiling) "f.pie"
      ((Cursor.start firstArgument).skip ['('])) (by decide +kernel)
  obtain ⟨f, hf, hfpos⟩ := exists_fail_of_failedAt? (q := ⟨1, 13⟩)
    (o := (slot .expr).eval (rules.call "f.pie" nestingCeiling) "f.pie"
      ((Cursor.start firstArgument).skip "(f ".toList)) (by decide +kernel)
  obtain ⟨g, hg, -⟩ := exists_fail_of_failedAt? (q := ⟨1, 13⟩)
    (o := expr.eval (rules.call "f.pie" nestingCeiling) "f.pie" (.start firstArgument))
    (by decide +kernel)
  have hreport := report_of_failing_item (.application hopen) (.first rfl) hrow hf hg
  exact ⟨f, g, hf, hg, hfpos, hreport.2.1 (by decide)⟩

/-- An application whose second argument is an abstraction over a constant. -/
def secondArgument : Text := "(f y (lambda (U) x))".toList

/-- The name that is rejected in the second argument lies deeper than the report, which asks for a
closing parenthesis after the first one. -/
theorem dropped_failure_lies_deeper :
    ∃ c₁ d f g, ListAt "f.pie" nestingCeiling (.start secondArgument) .application c₁ ∧
      Shape.application.Next [.expr, .expr] .expr ∧
      (items [.expr, .expr] none).eval (rules.call "f.pie" nestingCeiling) "f.pie" c₁ = .ok () d ∧
      (slot .expr).eval (rules.call "f.pie" nestingCeiling) "f.pie" d = .fail f ∧
      expr.eval (rules.call "f.pie" nestingCeiling) "f.pie" (.start secondArgument) = .fail g ∧
      f.pos = ⟨1, 15⟩ ∧ g.pos = ⟨1, 6⟩ ∧ ¬ f.pos ≤ g.pos := by
  obtain ⟨x, hopen⟩ := exists_ok_of_reached? (d := (Cursor.start secondArgument).skip ['('])
    (o := opening.eval (rules.call "f.pie" nestingCeiling) "f.pie" (.start secondArgument))
    (by decide +kernel)
  obtain ⟨u, hrow⟩ := exists_ok_of_reached? (d := (Cursor.start secondArgument).skip "(f y ".toList)
    (o := (items [.expr, .expr] none).eval (rules.call "f.pie" nestingCeiling) "f.pie"
      ((Cursor.start secondArgument).skip ['('])) (by decide +kernel)
  obtain ⟨f, hf, hfpos⟩ := exists_fail_of_failedAt? (q := ⟨1, 15⟩)
    (o := (slot .expr).eval (rules.call "f.pie" nestingCeiling) "f.pie"
      ((Cursor.start secondArgument).skip "(f y ".toList)) (by decide +kernel)
  obtain ⟨g, hg, hgpos⟩ := exists_fail_of_failedAt? (q := ⟨1, 6⟩)
    (o := expr.eval (rules.call "f.pie" nestingCeiling) "f.pie" (.start secondArgument))
    (by decide +kernel)
  refine ⟨_, _, f, g, .application hopen, .more 0 rfl, hrow, hf, hg, hfpos, hgpos, ?_⟩
  rw [hfpos, hgpos]
  decide

end Grammar

end PieSyntax
