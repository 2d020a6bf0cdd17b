import PieSyntax.Proofs.Cut
import PieSyntax.Proofs.Failing
import PieSyntax.Proofs.Slots

/-!
# Where parsing gets stuck

A run that fails leaves a trail: from where it started down to the place of the failure there are
lists that have been opened, each with some of its items in place, and at the end there is an item
that is missing, a word that breaks off, or a closing parenthesis that does not come.  `Stuck` is that
trail, said of texts.  What comes after the place of the failure plays no part in it.

## Main results

* `Stuck.cut` — what comes after the place where parsing got stuck plays no part.
* `Grammar.eval_items_fail` — the items of a list fail at one of those that must be there.
* `Grammar.stuckAt_of_eval_list` — a list of names that fails is stuck.
-/

namespace PieSyntax

/-- After trivia the S-expressions stand one after the other up to `d`, each with a gap after it. -/
def SExpr.StandAfter (source : String) (xs : List (SExpr Location)) (c d : Cursor) : Prop :=
  ∃ c₁, c.Gap c₁ ∧ SExpr.StandAll source xs c₁ d

/-- The characters that are waited for where a slot is to be filled. -/
def Slot.hints : Slot → List Char
  | .expr => ['\'', '(', '+', '-', '.']
  | .name => ['+', '-', '.']
  | .names => ['(']
  | .pair => ['(']
  | .pairs => ['(']
  | .topLevel => ['\'', '(', '+', '-', '.']

/-- A slot is to be filled at the first cursor, and its filling breaks off at the second, where only
the given characters are waited for. -/
inductive Stuck (source : String) : Slot → Cursor → Cursor → List Char → Prop where
  /-- Nothing that fills the slot comes next. -/
  | start (s : Slot) (c : Cursor) : Stuck source s c c s.hints
  /-- Dots come next that make no word. -/
  | word {s : Slot} {c : Cursor} {u r : Text} (hs : s = .expr ∨ s = .name) (hu : Dots u)
    (hr : c.rest = u ++ r) : Stuck source s c (c.skip u) (wordHints u)
  /-- No word comes after an apostrophe. -/
  | quoted {c : Cursor} {u r : Text} (hu : Dots u) (hr : c.rest = '\'' :: (u ++ r)) :
    Stuck source .expr c (c.skip ('\'' :: u)) (wordHints u)
  /-- In a list that was opened, an item that must be there breaks off. -/
  | item {s t : Slot} {lead xs : List (SExpr Location)} {σ : Shape} {row rest : List Slot}
    {c d h : Cursor} {hints : List Char} (hopens : s.Opens lead σ) (hr : ∃ r, c.rest = '(' :: r)
    (hxs : SExpr.StandAfter source (lead ++ xs) (c.skip ['(']) d) (hrow : AcceptAll row none xs)
    (hfirst : σ.first = row ++ t :: rest) (hstuck : Stuck source t d h hints) :
    Stuck source s c h hints
  /-- A list has all its items, and is not closed. -/
  | close {s : Slot} {lead xs : List (SExpr Location)} {σ : Shape} {c h : Cursor}
    (hopens : s.Opens lead σ) (hr : ∃ r, c.rest = '(' :: r)
    (hxs : SExpr.StandAfter source (lead ++ xs) (c.skip ['(']) h)
    (hall : AcceptAll σ.first σ.more xs) : Stuck source s c h [')']
  /-- A top-level form that is an expression. -/
  | form {c h : Cursor} {hints : List Char} (hstuck : Stuck source .expr c h hints) :
    Stuck source .topLevel c h hints

namespace SExpr

variable {source : String} {xs ys : List (SExpr Location)} {c d e : Cursor} {v : Text}

theorem StandAfter.reaches (h : StandAfter source xs c d) : c.Reaches d := by
  obtain ⟨c₁, hgap, hall⟩ := h
  exact hgap.reaches.trans hall.reaches

theorem StandAfter.cut (h : StandAfter source xs (c.before v) (d.before v)) :
    StandAfter source xs c d := by
  obtain ⟨c₁, hgap, hall⟩ := h
  obtain ⟨c₁, rfl⟩ := hall.reaches.exists_before
  exact ⟨c₁, hgap.cut, hall.cut⟩

theorem StandAllBy.append {G : Cursor → Cursor → Prop} (hxs : StandAllBy G source xs c d)
    (hys : StandAllBy G source ys d e) : StandAllBy G source (xs ++ ys) c e := by
  induction xs generalizing c with
  | nil =>
      obtain rfl := hxs
      exact hys
  | cons x xs ih =>
      obtain ⟨m, c₁, hx, hgap, hall⟩ := hxs
      exact ⟨m, c₁, hx, hgap, ih hall⟩

theorem StandAllBy.split {G : Cursor → Cursor → Prop} (h : StandAllBy G source (xs ++ ys) c e) :
    ∃ d, StandAllBy G source xs c d ∧ StandAllBy G source ys d e := by
  induction xs generalizing c with
  | nil => exact ⟨c, rfl, h⟩
  | cons x xs ih =>
      obtain ⟨m, c₁, hx, hgap, hall⟩ := h
      obtain ⟨d, hxs, hys⟩ := ih hall
      exact ⟨d, ⟨m, c₁, hx, hgap, hxs⟩, hys⟩

theorem StandsBy.pos_lt {x : SExpr Location} {m : Cursor} (hx : x.Stands source c m)
    (hreach : m.Reaches d) : c.pos < d.pos := by
  obtain ⟨⟨u, hu⟩, hlt⟩ := hx.reaches
  rw [hu.eq_skip] at hreach
  refine hreach.pos_lt_of_skip fun hnil => ?_
  rw [hu.rest, hnil] at hlt
  exact Nat.lt_irrefl _ hlt

theorem StandAfter.of_gap (h : c.Gap d) : StandAfter source [] c d := ⟨d, h, rfl⟩

/-- An item after the others. -/
theorem StandAfter.concat {x : SExpr Location} {m : Cursor} (h : StandAfter source xs c d)
    (hx : x.Stands source d m) (hgap : m.Gap e) : StandAfter source (xs ++ [x]) c e := by
  obtain ⟨c₁, hgap₁, hall⟩ := h
  exact ⟨c₁, hgap₁, hall.append ⟨m, e, hx, hgap, rfl⟩⟩

end SExpr

namespace Stuck

variable {source : String} {s : Slot} {c h : Cursor} {hints : List Char}

theorem reaches (hstuck : Stuck source s c h hints) : c.Reaches h := by
  induction hstuck with
  | start s c => exact Cursor.Reaches.refl c
  | word hs hu hr => exact Cursor.reaches_skip hr
  | quoted hu hr => exact Cursor.reaches_skip (u := '\'' :: _) hr
  | item hopens hr hxs hrow hfirst hstuck ih =>
      obtain ⟨r, hr⟩ := hr
      exact ((Cursor.reaches_skip (u := ['(']) hr).trans hxs.reaches).trans ih
  | close hopens hr hxs hall =>
      obtain ⟨r, hr⟩ := hr
      exact (Cursor.reaches_skip (u := ['(']) hr).trans hxs.reaches
  | form hstuck ih => exact ih

/-- What comes after the place where parsing got stuck plays no part. -/
theorem cut {v : Text} (hstuck : Stuck source s (c.before v) (h.before v) hints) :
    Stuck source s c h hints := by
  generalize hc : c.before v = c' at hstuck
  generalize hh : h.before v = h' at hstuck
  induction hstuck generalizing c h with
  | start s c' =>
      obtain rfl := Cursor.before_injective (hc.trans hh.symm)
      exact .start s c
  | @word s c' u r hs hu hr =>
      subst hc
      obtain ⟨hr', rfl⟩ := Cursor.skip_cut hr hh
      exact .word hs hu hr'
  | @quoted c' u r hu hr =>
      subst hc
      obtain ⟨hr', rfl⟩ := Cursor.skip_cut (u := '\'' :: u) hr hh
      exact .quoted hu hr'
  | @item s t lead xs σ row rest c' d h' hints hopens hr hxs hrow hfirst hstuck ih =>
      subst hc hh
      obtain ⟨d, rfl⟩ := hstuck.reaches.exists_before
      obtain ⟨r, hr⟩ := hr
      obtain ⟨c₀, hc₀⟩ := hxs.reaches.exists_before
      obtain ⟨hr', rfl⟩ := Cursor.skip_cut (u := ['(']) hr hc₀.symm
      rw [hc₀] at hxs
      exact .item hopens ⟨_, hr'⟩ hxs.cut hrow hfirst (ih rfl rfl)
  | @close s lead xs σ c' h' hopens hr hxs hall =>
      subst hc hh
      obtain ⟨r, hr⟩ := hr
      obtain ⟨c₀, hc₀⟩ := hxs.reaches.exists_before
      obtain ⟨hr', rfl⟩ := Cursor.skip_cut (u := ['(']) hr hc₀.symm
      rw [hc₀] at hxs
      exact .close hopens ⟨_, hr'⟩ hxs.cut hall
  | form hstuck ih => exact .form (ih hc hh)

end Stuck

namespace Grammar

open PieSyntax.Parser

variable {source : String} {k : Nat} {c d : Cursor} {f : Failure}

/-! ## Items that were read -/

/-- What was read for a slot stands there and fills it. -/
theorem accepts_of_eval_slot {s : Slot} {u : Unit}
    (h : (slot s).eval (rules.call source k) source c = .ok u d) :
    ∃ x m, x.Stands source c m ∧ m.Gap d ∧ s.Accepts x := by
  cases s with
  | expr =>
      obtain ⟨e, he, -⟩ := eval_map_ok h
      obtain ⟨x, m, hx, hmean, hgap⟩ := callsSound source k c e d he
      exact ⟨x, m, hx, hgap, e, hmean⟩
  | name =>
      obtain ⟨name, hname, -⟩ := eval_map_ok h
      obtain ⟨m, hstands, hfree, hskip⟩ := stands_of_eval_varName hname
      exact ⟨_, m, hstands, gap_of_eval_skip hskip, name, elaborateName_of_isFreeName hfree⟩
  | names =>
      obtain ⟨bs, hbs, -⟩ := eval_map_ok h
      obtain ⟨x, m, hx, hmean, hne, hgap⟩ := stands_of_eval_binders hbs
      exact ⟨x, m, hx, hgap, bs, hmean, by simpa using hne⟩
  | pair =>
      obtain ⟨b, hb, -⟩ := eval_map_ok h
      obtain ⟨x, m, hx, hmean, hgap⟩ := stands_of_eval_pair (callsSound source k) hb
      exact ⟨x, m, hx, hgap, b, hmean⟩
  | pairs =>
      obtain ⟨bs, hbs, -⟩ := eval_map_ok h
      obtain ⟨x, m, hx, hmean, hne, hgap⟩ := stands_of_eval_typedBinders (callsSound source k) hbs
      exact ⟨x, m, hx, hgap, bs, hmean, by simpa using hne⟩
  | topLevel =>
      obtain ⟨t, ht, -⟩ := eval_map_ok h
      obtain ⟨x, m, hx, hmean, hskip⟩ := stands_of_eval_topLevel ht
      exact ⟨x, m, hx, gap_of_eval_skip hskip, t, hmean⟩

theorem accepts_of_rounds {s : Slot} {us : List Unit}
    (h : Rounds ((slot s).eval (rules.call source k) source) c us d) :
    ∃ xs, SExpr.StandAll source xs c d ∧ ∀ x ∈ xs, s.Accepts x := by
  induction h with
  | done h => exact ⟨[], rfl, fun x hx => by cases hx⟩
  | @next c c₁ d u us h hne hrest ih =>
      obtain ⟨x, m, hx, hgap, haccepts⟩ := accepts_of_eval_slot h
      obtain ⟨xs, hxs, hall⟩ := ih
      refine ⟨x :: xs, ⟨m, c₁, hx, hgap, hxs⟩, fun y hy => ?_⟩
      rcases List.mem_cons.mp hy with rfl | hy
      · exact haccepts
      · exact hall y hy

/-- What was read for the slots of a list stands there and fills them. -/
theorem acceptAll_of_eval_items {first : List Slot} {more : Option Slot} {u : Unit}
    (h : (items first more).eval (rules.call source k) source c = .ok u d) :
    ∃ xs, SExpr.StandAll source xs c d ∧ AcceptAll first more xs := by
  induction first generalizing c with
  | nil =>
      cases more with
      | none =>
          cases h
          exact ⟨[], rfl, rfl⟩
      | some s =>
          obtain ⟨us, hmany, -⟩ := eval_map_ok h
          exact accepts_of_rounds (eval_many_ok (rules.call_reaches source k) hmany)
  | cons s rest ih =>
      obtain ⟨u', c₁, hs, hrest⟩ := eval_bind_ok h
      obtain ⟨x, m, hx, hgap, haccepts⟩ := accepts_of_eval_slot hs
      obtain ⟨xs, hxs, hall⟩ := ih hrest
      exact ⟨x :: xs, ⟨m, c₁, hx, hgap, hxs⟩, x, xs, rfl, haccepts, hall⟩

/-- The items of a list fail at one of those that must be there. -/
theorem eval_items_fail {first : List Slot} {more : Option Slot}
    (h : (items first more).eval (rules.call source k) source c = .fail f) :
    ∃ row t rest xs d, first = row ++ t :: rest ∧ SExpr.StandAll source xs c d ∧
      AcceptAll row none xs ∧ (slot t).eval (rules.call source k) source d = .fail f := by
  induction first generalizing c with
  | nil =>
      cases more with
      | none => cases h
      | some s =>
          exact absurd (eval_map_fail h) (eval_many_ne_fail (rules.call_reaches source k) _ c f)
  | cons s rest ih =>
      rcases eval_bind_fail h with hs | ⟨u, c₁, hs, hrest⟩
      · exact ⟨[], s, rest, [], c, rfl, rfl, rfl, hs⟩
      · obtain ⟨x, m, hx, hgap, haccepts⟩ := accepts_of_eval_slot hs
        obtain ⟨row, t, rest', xs, d, rfl, hxs, hrow, ht⟩ := ih hrest
        exact ⟨s :: row, t, rest', x :: xs, d, rfl, ⟨m, c₁, hx, hgap, hxs⟩,
          ⟨x, xs, rfl, haccepts, hrow⟩, ht⟩

/-! ## Names and lists of names -/

/-- The run fails where it is stuck. -/
def StuckAt (source : String) (s : Slot) (c : Cursor) (f : Failure) : Prop :=
  ∃ h hints, Stuck source s c h hints ∧ f.At h hints

theorem eval_varName_fail (h : varName.eval (rules.call source k) source c = .fail f) :
    (∃ g, (identifier : PieParser Text).eval (rules.call source k) source c = .fail g ∧
      f = g.furthest ⟨c.pos, .ofDescription "name"⟩) ∨
        (∃ name, wordPrefix c.rest = some name) ∧ f.At c [] := by
  obtain ⟨g, hg, rfl⟩ := eval_describe_fail h
  rcases eval_guard_fail hg with htoken | ⟨token, d, htoken, rfl⟩
  · exact Or.inl ⟨g, eval_lexeme_fail htoken, rfl⟩
  · have hword := (eval_lexeme_identifier_ok htoken).1
    have hvalid : Failure.At c [] ⟨c.pos, .ofDescription "valid name"⟩ :=
      ⟨rfl, Expectation.within_ofDescription _⟩
    have hname : Failure.At c [] ⟨c.pos, .ofDescription "name"⟩ :=
      ⟨rfl, Expectation.within_ofDescription _⟩
    exact Or.inr ⟨⟨token.value, hword⟩, hvalid.furthest hname.upTo⟩

theorem stuckAt_of_eval_name (h : (slot .name).eval (rules.call source k) source c = .fail f) :
    StuckAt source .name c f := by
  rcases eval_varName_fail (eval_map_fail h) with ⟨g, hg, rfl⟩ | ⟨-, hat⟩
  · obtain ⟨u, r, hu, hr, -, hat⟩ := eval_identifier_fail hg
    have hname : Failure.At c [] ⟨c.pos, .ofDescription "name"⟩ :=
      ⟨rfl, Expectation.within_ofDescription _⟩
    exact ⟨c.skip u, wordHints u, .word (Or.inr rfl) hu hr,
      hat.furthest (hname.upTo_of_reaches (Cursor.reaches_skip hr))⟩
  · exact ⟨c, _, .start .name c, hat.mono fun ch hch => by cases hch⟩

/-- A list without a keyword fails where it is stuck, if its items do. -/
theorem stuckAt_of_eval_list {s : Slot} {σ : Shape} (hlike : RunsAs (slot s) (parens skip (inside σ)))
    (hopens : s.Opens [] σ) (hhints : '(' ∈ s.hints)
    (hitems : ∀ t ∈ σ.first, ∀ c f, (slot t).eval (rules.call source k) source c = .fail f →
      StuckAt source t c f)
    (h : (slot s).eval (rules.call source k) source c = .fail f) : StuckAt source s c f := by
  rcases eval_parens_fail (hlike.eval_eq_fail h) with ⟨-, hat⟩ | ⟨r, c₁, hr, hskip, hinside⟩
  · refine ⟨c, _, .start s c, hat.mono fun ch hch => ?_⟩
    rw [List.mem_singleton.mp hch]
    exact hhints
  · have hgap := gap_of_eval_skip hskip
    rcases hinside with hfail | ⟨u, d, hok, hat⟩
    · obtain ⟨row, t, rest, xs, d, hfirst, hxs, hrow, ht⟩ := eval_items_fail hfail
      obtain ⟨e, hints, hstuck, hat⟩ := hitems t (by rw [hfirst]; simp) d f ht
      exact ⟨e, hints, .item hopens ⟨r, hr⟩ ⟨c₁, hgap, hxs⟩ hrow hfirst hstuck, hat⟩
    · obtain ⟨xs, hxs, hall⟩ := acceptAll_of_eval_items hok
      exact ⟨d, _, .close hopens ⟨r, hr⟩ ⟨c₁, hgap, hxs⟩ hall, hat⟩

theorem stuckAt_of_eval_names (h : (slot .names).eval (rules.call source k) source c = .fail f) :
    StuckAt source .names c f := by
  refine stuckAt_of_eval_list runsAs_binders .names (by decide) (fun t ht c f hf => ?_) h
  obtain rfl : t = .name := by simpa [Shape.names] using ht
  exact stuckAt_of_eval_name hf

end Grammar

end PieSyntax
