import PieSyntax.Proofs.Balance
import PieSyntax.Proofs.Longest

/-!
# Expressions that are commented out

A datum comment drops a datum, and a datum is read by a grammar of its own: words of any kind, runs of
digits and groups.  Every expression is written with these and with quoted atoms, which are no data.
So an expression can be commented out if no quoted atom stands in it, at any depth; otherwise the
comment is none, and trivia stop before its mark.

The two grammars meet in the S-expression at the place.  It is a datum if the expression that it stands
for has no quoted atom in it, since binders and keywords are plain words; and if a datum can be dropped
there at all, the S-expression is one.

## Main results

* `isDatum_of_elaborate` — an expression is a datum if no quoted atom stands in it.
* `SExpr.StandsBy.isDatum_of_dropped` — where a datum can be dropped, the S-expression is one.
* `commentedOut_iff` — which expressions can be commented out.
-/

namespace PieSyntax

/-! ## Quoted atoms -/

/-- A quoted atom. -/
def Node.isTick : Node → Bool
  | .tick _ => true
  | _ => false

/-- A quoted atom is among the expressions. -/
def anyTick (es : List Expr) : Bool := es.any fun e => e.value.isTick

@[simp] theorem anyTick_append (es es' : List Expr) :
    anyTick (es ++ es') = (anyTick es || anyTick es') := List.any_append

/-- A quoted atom stands in the expression. -/
def hasTick (e : Expr) : Bool := anyTick (subexpressions e)

theorem hasTick_of_isTick {e : Expr} (h : e.value.isTick = false) :
    hasTick e = anyTick e.value.subexpressions := by
  rw [hasTick, subexpressions_eq, anyTick, List.any_cons, h]
  rfl

variable {L : Type} {place : L → Location}

/-! ## The data of an expression -/

theorem SExpr.isDatum_of_head {x : SExpr L} {head : Head} (h : x.head? = some head) :
    x.isDatum = true := by
  cases x with
  | word label name => rfl
  | quoted label name => cases h
  | numeral label run => cases h
  | list label items => cases h

theorem isDatum_of_elaborateName {x : SExpr L} {name : Located Text}
    (h : elaborateName place x = some name) : x.isDatum = true := by
  obtain ⟨label, word, rfl, -⟩ := elaborateName_eq_some h
  rfl

theorem areData_of_elaborateNames {xs : List (SExpr L)} {bs : List Binder}
    (h : elaborateNames place xs = some bs) : SExpr.areData xs = true := by
  induction xs generalizing bs with
  | nil => rfl
  | cons x xs ih =>
      obtain ⟨name, bs', hname, hxs, -⟩ := elaborateNames_cons_eq_some h
      rw [SExpr.areData, isDatum_of_elaborateName hname, ih hxs, Bool.and_self]

theorem isDatum_of_elaborateBinders {x : SExpr L} {bs : List Binder}
    (h : elaborateBinders place x = some bs) : x.isDatum = true := by
  obtain ⟨label, items, rfl, hnames⟩ := elaborateBinders_eq_some h
  exact areData_of_elaborateNames hnames

theorem isTick_of_elaborateWord {name : Text} {node : Node} (h : elaborateWord name = some node) :
    node.isTick = false := by
  rcases elaborateWord_eq_some h with ⟨c, -, rfl⟩ | ⟨-, rfl⟩ <;> rfl

theorem ListMeaning.isTick {x : SExpr L} {items : List (SExpr L)} {node : Node}
    (h : ListMeaning place x items node) : node.isTick = false := by
  cases h <;> rfl

mutual

/-- An expression is a datum if no quoted atom stands in it. -/
theorem isDatum_of_elaborate (x : SExpr L) {e : Expr} (h : elaborate place x = some e) :
    x.isDatum = !hasTick e := by
  match x with
  | .word label name =>
      obtain ⟨node, hnode, rfl⟩ := elaborate_word_eq_some h
      rw [hasTick_of_isTick (isTick_of_elaborateWord hnode), elaborateWord_subexpressions hnode]
      rfl
  | .quoted label name =>
      cases h
      rfl
  | .numeral label run =>
      obtain ⟨value, -, rfl⟩ := elaborate_numeral_eq_some h
      rfl
  | .list label items =>
      rw [elaborate] at h
      obtain ⟨node, hnode, rfl⟩ := Option.map_eq_some_iff.mp h
      obtain ⟨x, items', -, hmeaning⟩ := elaborateList_eq_some hnode
      rw [hasTick_of_isTick hmeaning.isTick]
      exact areData_of_elaborateList items hnode

theorem areData_of_elaborateList (xs : List (SExpr L)) {node : Node}
    (h : elaborateList place xs = some node) :
    SExpr.areData xs = !anyTick node.subexpressions := by
  match xs with
  | [] => cases h
  | x :: items =>
      obtain ⟨x', items', heq, hmeaning⟩ := elaborateList_eq_some h
      cases heq
      cases hmeaning with
      | form hhead hargs =>
          rw [SExpr.areData, SExpr.isDatum_of_head hhead, areData_of_elaborateAll items hargs,
            Node.subexpressions, Arguments.subexpressions_eq, Bool.true_and]
      | @lambda names body bs e hhead hbinders hne hbody =>
          simp only [SExpr.areData, SExpr.isDatum_of_head hhead,
            isDatum_of_elaborateBinders hbinders, isDatum_of_elaborate body hbody,
            Node.subexpressions, hasTick, Bool.true_and, Bool.and_true]
      | @quantifier q pairs body bs e hhead hbinders hne hbody =>
          simp only [SExpr.areData, SExpr.isDatum_of_head hhead,
            isDatum_of_elaborateTypedBinders pairs hbinders, isDatum_of_elaborate body hbody,
            Node.subexpressions, hasTick, anyTick_append, Bool.not_or, Bool.true_and, Bool.and_true]
      | arrow hhead hparts hne =>
          rw [SExpr.areData, SExpr.isDatum_of_head hhead, areData_of_elaborateAll items hparts,
            Bool.true_and]
          rfl
      | application hhead hx hargs hne =>
          simp only [SExpr.areData, isDatum_of_elaborate x hx, areData_of_elaborateAll items hargs,
            Node.subexpressions, hasTick, anyTick_append, Bool.not_or]

theorem areData_of_elaborateAll (xs : List (SExpr L)) {es : List Expr}
    (h : elaborateAll place xs = some es) :
    SExpr.areData xs = !anyTick (allSubexpressions es) := by
  match xs with
  | [] =>
      cases h
      rfl
  | x :: xs =>
      obtain ⟨e, es', hx, hxs, rfl⟩ := elaborateAll_cons_eq_some h
      rw [SExpr.areData, isDatum_of_elaborate x hx, areData_of_elaborateAll xs hxs,
        allSubexpressions, anyTick_append, Bool.not_or, hasTick]

theorem isDatum_of_elaborateTypedBinders (x : SExpr L) {bs : List TypedBinder}
    (h : elaborateTypedBinders place x = some bs) :
    x.isDatum = !anyTick (typedBindersSubexpressions bs) := by
  match x with
  | .word _ _ => cases h
  | .quoted _ _ => cases h
  | .numeral _ _ => cases h
  | .list label pairs => exact areData_of_elaboratePairs pairs h

theorem areData_of_elaboratePairs (xs : List (SExpr L)) {bs : List TypedBinder}
    (h : elaboratePairs place xs = some bs) :
    SExpr.areData xs = !anyTick (typedBindersSubexpressions bs) := by
  match xs with
  | [] =>
      cases h
      rfl
  | x :: xs =>
      obtain ⟨b, bs', hx, hxs, rfl⟩ := elaboratePairs_cons_eq_some h
      rw [SExpr.areData, isDatum_of_elaboratePair x hx, areData_of_elaboratePairs xs hxs,
        typedBindersSubexpressions, anyTick_append, Bool.not_or]

theorem isDatum_of_elaboratePair (x : SExpr L) {b : TypedBinder}
    (h : elaboratePair place x = some b) : x.isDatum = !anyTick b.subexpressions := by
  match x with
  | .word _ _ => cases h
  | .quoted _ _ => cases h
  | .numeral _ _ => cases h
  | .list _ [] => cases h
  | .list _ [_] => cases h
  | .list _ (_ :: _ :: _ :: _) => cases h
  | .list label [name, type] =>
      rw [elaboratePair] at h
      obtain ⟨y, hname, h⟩ := Option.bind_eq_some_iff.mp h
      obtain ⟨e, htype, rfl⟩ := Option.map_eq_some_iff.mp h
      simp only [SExpr.isDatum, SExpr.areData, isDatum_of_elaborateName hname,
        isDatum_of_elaborate type htype, TypedBinder.subexpressions, hasTick, Bool.true_and,
        Bool.and_true]

end

/-! ## Data at a place -/

/-- Where an apostrophe comes next there is no datum. -/
theorem Dropped.not_quote {r s' : Text} (h : Dropped .datum ('\'' :: r) s') : False := by
  generalize ht : '\'' :: r = t at h
  cases h with
  | word h =>
      rw [← ht, wordPrefix_eq_none_of_head (by rintro ch ⟨⟩; decide)] at h
      cases h
  | digits h =>
      rw [← ht, digitPrefix_eq_none_of_head (by rintro ch ⟨⟩; decide)] at h
      cases h
  | group _ _ => cases ht

/-- What comes after a gap that ends where trivia must is determined. -/
theorem Cursor.Gap.eq_of_dropped {c d : Cursor} {s : Text} (h : c.Gap d)
    (hs : Dropped .trivia c.rest s) (hd : Solid d.rest ∧ d.rest ≠ []) (hend : Solid s ∧ s ≠ []) :
    d.rest = s :=
  h.dropped.unique hs hd hend

namespace SExpr

variable {source : String}

mutual

/-- Where a datum can be dropped, the S-expression is one. -/
theorem StandsBy.isDatum_of_dropped {x : SExpr Location} {c m : Cursor} (h : x.Stands source c m)
    {s : Text} (hs : Dropped .datum c.rest s) : x.isDatum = true := by
  match x with
  | .word loc name => rfl
  | .quoted loc name =>
      obtain ⟨r, hr, -⟩ := h
      rw [hr] at hs
      exact hs.not_quote.elim
  | .numeral loc run => rfl
  | .list loc items =>
      obtain ⟨c₁, d, ⟨r, hr⟩, hgap, hall, ⟨r', hr'⟩, -, -⟩ := h
      rw [hr] at hs
      obtain ⟨s₁, hbefore, hdata⟩ := hs.after_open
      have hclose : Solid d.rest := hr' ▸ solid_cons (by decide) r'
      have hne : d.rest ≠ [] := hr' ▸ List.cons_ne_nil _ _
      have hrest := Cursor.rest_skip (u := ['(']) hr
      have hsame := hgap.eq_of_dropped (hrest ▸ hbefore) ⟨hall.solid hclose, hall.ne_nil hne⟩
        (Grammar.solid_of_dropped_data hdata)
      exact StandAllBy.areData_of_dropped hall hr' (hsame ▸ hdata)

theorem StandAllBy.areData_of_dropped {xs : List (SExpr Location)} {c d : Cursor}
    (h : StandAll source xs c d) {r s : Text} (hd : d.rest = ')' :: r)
    (hs : Dropped .data c.rest (')' :: s)) : areData xs = true := by
  match xs with
  | [] => rfl
  | x :: xs =>
      obtain ⟨m, c₁, hx, hgap, hall⟩ := h
      generalize ht : c.rest = t at hs
      cases hs with
      | nil _ =>
          obtain ⟨ch, r', hr', hstart⟩ := hx.start
          rw [hr'] at ht
          cases ht
          exact absurd hstart (by decide)
      | @cons _ s₁ s₂ _ hdatum hafter hdata =>
          have hdatum' : Dropped .datum c.rest s₁ := ht ▸ hdatum
          have hfirst := StandsBy.isDatum_of_dropped hx hdatum'
          have hm : m.rest = s₁ := (hx.dropped hfirst).unique hdatum' trivial trivial
          have hclose : Solid d.rest := hd ▸ solid_cons (by decide) r
          have hne : d.rest ≠ [] := hd ▸ List.cons_ne_nil _ _
          have hsame := hgap.eq_of_dropped (hm ▸ hafter) ⟨hall.solid hclose, hall.ne_nil hne⟩
            (Grammar.solid_of_dropped_data hdata)
          rw [areData, hfirst, StandAllBy.areData_of_dropped hall hd (hsame ▸ hdata), Bool.and_self]

end

end SExpr

/-! ## Comments -/

/-- A mark before something solid starts a comment only if a datum comes next. -/
theorem Dropped.eq_of_mark {s s' : Text} (hs : Solid s) (hno : ∀ s₁, ¬ Dropped .datum s s₁)
    (h : Dropped .trivia ('#' :: ';' :: s) s') : s' = '#' :: ';' :: s := by
  generalize ht : '#' :: ';' :: s = t at h
  cases h with
  | none _ => rfl
  | white hch _ =>
      cases ht
      exact absurd hch (by decide)
  | line _ _ => cases ht
  | lastLine _ => cases ht
  | comment hbefore hdatum hafter =>
      cases ht
      rw [hbefore.eq_of_solid hs] at hdatum
      exact (hno _ hdatum).elim

namespace Grammar

variable {source : String} {k : Nat} {c d m : Cursor} {e : Text} {x : SExpr Location}

/-- A datum that a mark comments out, and the trivia after it. -/
theorem run_trivia_mark (h : rules.run k source trivia c ≠ .interrupted .tooDeep)
    (hc : c.rest = '#' :: ';' :: e) (hx : x.Stands source (.start e) m) (hdatum : x.isDatum = true)
    (hgap : m.Gap d) (hd : d.rest = []) : rules.run k source trivia c = .ok () (c.skip c.rest) := by
  have hafter := hgap.dropped
  rw [hd] at hafter
  exact run_trivia_of_dropped_nil h (hc ▸ .comment (.none e) (hx.dropped hdatum) hafter)

/-- A mark before what is no datum. -/
theorem run_trivia_mark_of_not (h : rules.run k source trivia c ≠ .interrupted .tooDeep)
    (hc : c.rest = '#' :: ';' :: e) (hx : x.Stands source (.start e) m)
    (hdatum : x.isDatum = false) : rules.run k source trivia c = .ok () c := by
  have hno : ∀ s, ¬ Dropped .datum e s := by
    intro s hs
    have hyes := hx.isDatum_of_dropped hs
    rw [hdatum] at hyes
    cases hyes
  refine (run_trivia_eq_ok_iff h).mpr ⟨.refl c, fun s hs => ?_⟩
  rw [hc] at hs ⊢
  exact Dropped.eq_of_mark hx.solid.1 hno hs

end Grammar

/-- An expression that makes up a text can be commented out if no quoted atom stands in it: the mark
and the whole text are skipped then.  Otherwise nothing is. -/
theorem commentedOut_iff {source : String} {e : Text} {k l : Nat} {E : Expr} {d : Cursor}
    (hexpr : Grammar.rules.run k source (Grammar.expr.followedBy .eof) (.start e) = .ok E d)
    (hbelow : Grammar.rules.run l source Grammar.trivia (.start ("#;".toList ++ e)) ≠
      .interrupted .tooDeep) :
    (hasTick E = false →
      Grammar.rules.run l source (Grammar.trivia.followedBy .eof) (.start ("#;".toList ++ e)) =
        .ok () ((Cursor.start ("#;".toList ++ e)).skip ("#;".toList ++ e))) ∧
    (hasTick E = true →
      Grammar.rules.run l source Grammar.trivia (.start ("#;".toList ++ e)) =
          .ok () (.start ("#;".toList ++ e)) ∧
        Grammar.rules.run l source (Grammar.trivia.followedBy .eof) (.start ("#;".toList ++ e)) =
          .fail ⟨Position.start, .endOfInput⟩) := by
  obtain ⟨hok, hd⟩ := Parser.eval_followedBy_eof_eq_ok_iff.mp hexpr
  obtain ⟨x, m, hx, hmean, hskip⟩ := Grammar.stands_of_eval_expr hok
  have hgap := Grammar.gap_of_eval_skip hskip
  have hdatum := isDatum_of_elaborate x hmean
  constructor
  · intro htick
    rw [htick] at hdatum
    have hrun := Grammar.run_trivia_mark hbelow rfl hx hdatum hgap hd
    exact Parser.eval_followedBy_eof_eq_ok_iff.mpr
      ⟨hrun, Cursor.rest_skip (List.append_nil _).symm⟩
  · intro htick
    rw [htick] at hdatum
    have hrun := Grammar.run_trivia_mark_of_not hbelow rfl hx hdatum
    have hleft : (Cursor.start ("#;".toList ++ e)).rest ≠ [] := List.cons_ne_nil _ _
    refine ⟨hrun, ?_⟩
    rw [Rules.run] at hrun ⊢
    rw [Parser.eval_followedBy_eof, hrun, Outcome.andThen_ok, if_neg hleft]
    rfl

/-- A quoted atom is an expression and cannot be commented out. -/
theorem quoted_not_commentedOut :
    (∃ E d, Grammar.rules.run nestingCeiling memorySource (Grammar.expr.followedBy .eof)
      (.start "'a".toList) = .ok E d) ∧
    ∃ f, Grammar.rules.run nestingCeiling memorySource (Grammar.trivia.followedBy .eof)
      (.start ("#;".toList ++ "'a".toList)) = .fail f ∧ f.pos = ⟨1, 1⟩ := by
  constructor
  · obtain ⟨E, hE⟩ := exists_ok_of_reached? (d := ⟨[], 2, ⟨1, 3⟩⟩)
      (o := Grammar.rules.run nestingCeiling memorySource (Grammar.expr.followedBy .eof)
        (.start "'a".toList)) (by decide +kernel)
    exact ⟨E, _, hE⟩
  · exact exists_fail_of_failedAt? (by decide +kernel)

/-- An abstraction that is applied, before a comment. -/
def appliedAbstraction : Text := "((lambda (x) x) 12) ; done".toList

/-- An application of a name to a quoted atom. -/
def appliedToQuoted : Text := "(f 'a)".toList

/-- The one can be commented out, the other cannot. -/
theorem commentedOut_applications :
    (∃ E d, Grammar.rules.run nestingCeiling memorySource (Grammar.expr.followedBy .eof)
        (.start appliedAbstraction) = .ok E d ∧ hasTick E = false ∧
      Grammar.rules.run nestingCeiling memorySource (Grammar.trivia.followedBy .eof)
          (.start ("#;".toList ++ appliedAbstraction)) =
        .ok () ((Cursor.start ("#;".toList ++ appliedAbstraction)).skip
          ("#;".toList ++ appliedAbstraction))) ∧
    ∃ E d, Grammar.rules.run nestingCeiling memorySource (Grammar.expr.followedBy .eof)
        (.start appliedToQuoted) = .ok E d ∧ hasTick E = true ∧
      Grammar.rules.run nestingCeiling memorySource (Grammar.trivia.followedBy .eof)
          (.start ("#;".toList ++ appliedToQuoted)) = .fail ⟨Position.start, .endOfInput⟩ := by
  constructor
  · obtain ⟨E, d, hexpr, htick⟩ := exists_ok_of_value? (fun E => !hasTick E)
      (o := Grammar.rules.run nestingCeiling memorySource (Grammar.expr.followedBy .eof)
        (.start appliedAbstraction)) (by decide +kernel)
    have hbelow : Grammar.rules.run nestingCeiling memorySource Grammar.trivia
        (.start ("#;".toList ++ appliedAbstraction)) ≠ .interrupted .tooDeep :=
      Grammar.Tamed.ne_tooDeep Grammar.tamed_trivia (by decide)
    have hno : hasTick E = false := by simpa using htick
    exact ⟨E, d, hexpr, hno, (commentedOut_iff hexpr hbelow).1 hno⟩
  · obtain ⟨E, d, hexpr, htick⟩ := exists_ok_of_value? hasTick
      (o := Grammar.rules.run nestingCeiling memorySource (Grammar.expr.followedBy .eof)
        (.start appliedToQuoted)) (by decide +kernel)
    have hbelow : Grammar.rules.run nestingCeiling memorySource Grammar.trivia
        (.start ("#;".toList ++ appliedToQuoted)) ≠ .interrupted .tooDeep :=
      Grammar.Tamed.ne_tooDeep Grammar.tamed_trivia (by decide)
    exact ⟨E, d, hexpr, htick, ((commentedOut_iff hexpr hbelow).2 htick).2⟩

end PieSyntax
