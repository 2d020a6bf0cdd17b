import PieSyntax.Proofs.Atoms
import PieSyntax.Proofs.Depth

/-!
# Reading expressions

Where an S-expression stands in the text that elaborates to an expression, the grammar reads that
expression, whatever tail follows and under every ceiling that leaves room for it: as much as the
expression is deep, and as much as the gaps in it need.

The induction is on the size of the S-expression.  Within a list everything is closed off by what
comes next, so the trivia there are known; only the trivia after the expression itself go on in the
tail.

## Main results

* `Grammar.returns_headBody` — what follows a keyword, one case for each head.
* `Grammar.reads_expr` — an expression is read where it stands.
-/

namespace PieSyntax

namespace Grammar

open PieSyntax.Parser

variable {V : Tails} {G : Cursor → Cursor → Prop} {g : Nat} {source : String} {k : Nat}
variable {c d m : Cursor}

/-- Gaps of the kind `G` are skipped within `g` levels of nesting. -/
structure Skippable (V : Tails) (G : Cursor → Cursor → Prop) (g : Nat) : Prop where
  gap : ∀ c d, G c d → c.Gap d
  room : ∀ c d, G c d → V.Room (weight c.rest + 1) (g + weight d.rest)

/-- All gaps are skipped by runs that may be cut off. -/
theorem skippable_of_cut (h : V.cut) : Skippable V Cursor.Gap 0 :=
  ⟨fun _ _ hgap => hgap, fun _ _ _ => Or.inl h⟩

/-! ## Within a list -/

/-- Nothing is read as an expression before a closing parenthesis. -/
theorem declines_innerExpr {r : Text} (hr : d.rest = ')' :: r) (hroom : V.Room 1 k) :
    Declines (rules.call source k) source V innerExpr d := by
  refine Rules.declines_call hroom fun j _ => declines_expr fun v hv ch hch => ?_
  rw [head_append (V := V) hr v hv ch hch]
  decide

section

variable (hG : Skippable V G g)

include hG

theorem Skippable.returns (h : G c d) (hclear : Clear V d.rest) (hroom : V.Room g k) :
    Returns (rules.call source k) source V skip c () d := by
  refine returns_skip (hG.gap c d h) hclear ?_
  rcases hG.room c d h with hcut | hneed
  · exact Or.inl hcut
  · exact hroom.imp fun hk => by omega

/-- Outside of all tokens trivia are not called, and need one level less. -/
theorem Skippable.returns_trivia (h : G c d) (hclear : Clear V d.rest) (hroom : V.Room g (k + 1)) :
    Returns (rules.call source k) source V trivia c () d := by
  refine Grammar.returns_trivia (hG.gap c d h) hclear ?_
  rcases hG.room c d h with hcut | hneed
  · exact Or.inl hcut
  · exact hroom.imp fun hk => by omega

/-- What comes after a gap within a list is solid. -/
theorem clear_of_standAll {xs : List (SExpr Location)} {r : Text}
    (h : SExpr.StandAllBy G source xs c d) (hr : d.rest = ')' :: r) : Clear V c.rest := by
  have hsolid : Solid d.rest := by
    rw [hr]
    exact solid_cons (by decide) r
  have hne : d.rest ≠ [] := by
    rw [hr]
    exact List.cons_ne_nil _ _
  exact Clear.of_solid (h.solid hsolid) ((h.mono hG.gap).ne_nil hne)

theorem rest_ne_nil_of_gap {xs : List (SExpr Location)} {c₁ : Cursor} {r : Text} (hgap : G m c₁)
    (h : SExpr.StandAllBy G source xs c₁ d) (hr : d.rest = ')' :: r) : m.rest ≠ [] := by
  intro hnil
  have hle := ((hG.gap _ _ hgap).reaches.trans (h.mono hG.gap).reaches).length_le
  rw [hnil, hr] at hle
  cases hle

theorem offset_ne_of_stands {x : SExpr Location} {c₁ : Cursor} (h : x.StandsBy G source c m)
    (hgap : G m c₁) : c₁.offset ≠ c.offset := by
  obtain ⟨hreach, hlt⟩ := (h.mono hG.gap).reaches
  have hreach' := (hG.gap _ _ hgap).reaches
  have hle := hreach'.length_le
  exact (hreach.trans hreach').offset_ne (by omega)

/-- A name among the items of a list, with the trivia after it. -/
theorem returns_varName {x : SExpr Location} {xs : List (SExpr Location)} {name : Located Text}
    {c₁ : Cursor} {r : Text} (hx : x.StandsBy G source c m)
    (hmean : elaborateName id x = some name) (hgap : G m c₁)
    (hxs : SExpr.StandAllBy G source xs c₁ d) (hr : d.rest = ')' :: r) (hroom : V.Room g k) :
    Returns (rules.call source k) source V varName c name c₁ := by
  obtain ⟨loc, word, rfl, hfree, rfl⟩ := elaborateName_eq_some hmean
  exact Reads.close (reads_varName hx (Or.inl (rest_ne_nil_of_gap hG hgap hxs hr)) hfree)
    (hG.returns hgap (clear_of_standAll hG hxs hr) hroom)

theorem returns_many_binder {xs : List (SExpr Location)} {bs : List Binder} {r : Text}
    (hxs : SExpr.StandAllBy G source xs c d) (hmean : elaborateNames id xs = some bs)
    (hr : d.rest = ')' :: r) (hroom : V.Room g k) : Returns (rules.call source k) source V
      (varName.map fun token => (⟨token.loc, token.value⟩ : Binder)).many c bs d := by
  have hcall := rules.call_reaches source k
  induction xs generalizing c bs with
  | nil =>
      obtain rfl := hxs
      cases hmean
      refine Returns.many_nil hcall (Declines.map _ (declines_varName fun v hv ch hch => ?_))
      rw [head_append (V := V) hr v hv ch hch]
      decide
  | cons x xs ih =>
      obtain ⟨m, c₁, hx, hgap, hall⟩ := hxs
      obtain ⟨name, bs', hname, hbs, rfl⟩ := elaborateNames_cons_eq_some hmean
      exact Returns.many_cons hcall
        (Reads.map _ (returns_varName hG hx hname hgap hall hr hroom))
        (offset_ne_of_stands hG hx hgap) (ih hall hbs)

/-- The names that an abstraction binds, up to the trivia after them. -/
theorem reads_binders {x : SExpr Location} {bs : List Binder} (hx : x.StandsBy G source c m)
    (hmean : elaborateBinders id x = some bs) (hne : bs ≠ []) (hroom : V.Room g k) :
    Reads (rules.call source k) source V skip binders c bs m := by
  obtain ⟨loc, items, rfl, hwords⟩ := elaborateBinders_eq_some hmean
  obtain ⟨c₂, e, ⟨s, hs⟩, hgap', hitems, ⟨s', hs'⟩, rfl, -⟩ := hx
  cases items with
  | nil =>
      cases hwords
      exact absurd rfl hne
  | cons y ys =>
      obtain ⟨name, bs', hname, hbs, rfl⟩ := elaborateNames_cons_eq_some hwords
      have hclear : Clear V c₂.rest := clear_of_standAll hG hitems hs'
      obtain ⟨m', c₃, hy, hgap'', hys⟩ := hitems
      have hnames : Returns (rules.call source k) source V
          (varName.map fun token => (⟨token.loc, token.value⟩ : Binder)).many1 c₂
            (⟨name.loc, name.value⟩ :: bs') e :=
        Returns.many1 (Reads.map _ (returns_varName hG hy hname hgap'' hys hs' hroom))
          (returns_many_binder hG hys hbs hs' hroom)
      exact Reads.parens hs (hG.returns hgap' hclear hroom) hnames hs'

theorem returns_binders {x : SExpr Location} {xs : List (SExpr Location)} {bs : List Binder}
    {c₁ : Cursor} {r : Text} (hx : x.StandsBy G source c m)
    (hmean : elaborateBinders id x = some bs) (hne : bs ≠ []) (hgap : G m c₁)
    (hxs : SExpr.StandAllBy G source xs c₁ d) (hr : d.rest = ')' :: r) (hroom : V.Room g k) :
    Returns (rules.call source k) source V binders c bs c₁ :=
  Reads.close (reads_binders hG hx hmean hne hroom)
    (hG.returns hgap (clear_of_standAll hG hxs hr) hroom)

end

/-! ## Expressions within a list -/

/-- S-expressions below a size are read as the expressions that they elaborate to. -/
def ReadsBelow (V : Tails) (G : Cursor → Cursor → Prop) (g : Nat) (source : String) (n : Nat) :
    Prop :=
  ∀ (k : Nat) (x : SExpr Location) (c m : Cursor) (e : Expr), sizeOf x < n →
    x.StandsBy G source c m → elaborate id x = some e → x.Closed V m →
      V.Room (exprDepth e + g) k → Reads (rules.call source k) source V skip expr c e m

section

variable {n : Nat} (hG : Skippable V G g) (ih : ReadsBelow V G g source n)

include hG ih

theorem returns_innerExpr {x : SExpr Location} {xs : List (SExpr Location)} {e : Expr}
    {c₁ : Cursor} {r : Text} (hsize : sizeOf x < n) (hx : x.StandsBy G source c m)
    (hmean : elaborate id x = some e) (hgap : G m c₁)
    (hxs : SExpr.StandAllBy G source xs c₁ d) (hr : d.rest = ')' :: r)
    (hroom : V.Room (exprDepth e + 1 + g) k) :
    Returns (rules.call source k) source V innerExpr c e c₁ := by
  refine Rules.returns_call (hroom.imp fun hk => by omega) fun j hj => ?_
  exact Reads.close
    (ih j x c m e hsize hx hmean (Or.inl (rest_ne_nil_of_gap hG hgap hxs hr))
      (hroom.imp fun hk => by omega))
    (hG.returns hgap (clear_of_standAll hG hxs hr) (hroom.imp fun hk => by omega))

theorem returns_many_innerExpr {xs : List (SExpr Location)} {es : List Expr} {r : Text}
    (hsize : sizeOf xs < n) (hxs : SExpr.StandAllBy G source xs c d)
    (hmean : elaborateAll id xs = some es) (hr : d.rest = ')' :: r)
    (hroom : V.Room (exprsDepth es + 1 + g) k) :
    Returns (rules.call source k) source V innerExpr.many c es d := by
  have hcall := rules.call_reaches source k
  induction es generalizing c xs with
  | nil =>
      obtain rfl := elaborateAll_eq_nil hmean
      obtain rfl := hxs
      exact Returns.many_nil hcall (declines_innerExpr hr (hroom.imp fun hk => by omega))
  | cons e es ihx =>
      obtain ⟨x, xs, rfl, he, hes⟩ := elaborateAll_eq_cons hmean
      obtain ⟨m, c₁, hx, hgap, hall⟩ := hxs
      simp only [List.cons.sizeOf_spec] at hsize
      rw [exprsDepth] at hroom
      exact Returns.many_cons hcall
        (returns_innerExpr hG ih (by omega) hx he hgap hall hr (hroom.imp fun hk => by omega))
        (offset_ne_of_stands hG hx hgap)
        (ihx (by omega) hall hes (hroom.imp fun hk => by omega))

theorem returns_many1_innerExpr {xs : List (SExpr Location)} {es : List Expr} {r : Text}
    (hsize : sizeOf xs < n) (hxs : SExpr.StandAllBy G source xs c d)
    (hmean : elaborateAll id xs = some es) (hne : es ≠ []) (hr : d.rest = ')' :: r)
    (hroom : V.Room (exprsDepth es + 1 + g) k) :
    Returns (rules.call source k) source V innerExpr.many1 c es d := by
  obtain ⟨e, es, rfl⟩ := List.exists_cons_of_ne_nil hne
  obtain ⟨x, xs, rfl, he, hes⟩ := elaborateAll_eq_cons hmean
  obtain ⟨m, c₁, hx, hgap, hall⟩ := hxs
  simp only [List.cons.sizeOf_spec] at hsize
  rw [exprsDepth] at hroom
  exact Returns.many1
    (returns_innerExpr hG ih (by omega) hx he hgap hall hr (hroom.imp fun hk => by omega))
    (returns_many_innerExpr hG ih (by omega) hall hes hr (hroom.imp fun hk => by omega))

theorem returns_arguments {xs : List (SExpr Location)} {a : Nat} {args : Arguments a} {r : Text}
    (hsize : sizeOf xs < n) (hxs : SExpr.StandAllBy G source xs c d)
    (hmean : elaborateAll id xs = some args.toList) (hr : d.rest = ')' :: r)
    (hroom : V.Room (args.depth + 1 + g) k) :
    Returns (rules.call source k) source V (arguments a) c args d := by
  induction a generalizing c xs with
  | zero =>
      cases args with
      | nil =>
          obtain rfl := elaborateAll_eq_nil hmean
          obtain rfl := hxs
          exact Returns.of_eval fun v _ => rfl
  | succ a iha =>
      cases args with
      | cons first rest =>
          obtain ⟨x, xs, rfl, he, hes⟩ := elaborateAll_eq_cons hmean
          obtain ⟨m, c₁, hx, hgap, hall⟩ := hxs
          simp only [List.cons.sizeOf_spec] at hsize
          rw [Arguments.depth] at hroom
          exact Reads.bind
            (returns_innerExpr hG ih (by omega) hx he hgap hall hr (hroom.imp fun hk => by omega))
            (Reads.map _ (iha (by omega) hall hes (hroom.imp fun hk => by omega)))

/-- The last of the items of a list. -/
theorem returns_last {x : SExpr Location} {e : Expr} {r : Text} (hsize : sizeOf x < n)
    (hxs : SExpr.StandAllBy G source [x] c d) (hmean : elaborate id x = some e)
    (hr : d.rest = ')' :: r) (hroom : V.Room (exprDepth e + 1 + g) k) :
    Returns (rules.call source k) source V innerExpr c e d := by
  obtain ⟨m, c₁, hx, hgap, hnil⟩ := hxs
  have h := returns_innerExpr hG ih hsize hx hmean hgap hnil hr hroom
  obtain rfl := hnil
  exact h

/-- A name with its type between parentheses, up to the trivia after it. -/
theorem reads_pair {x : SExpr Location} {b : TypedBinder} (hsize : sizeOf x < n)
    (hx : x.StandsBy G source c m) (hmean : elaboratePair id x = some b)
    (hroom : V.Room (b.depth + 1 + g) k) :
    Reads (rules.call source k) source V skip (parens skip typedBinder) c b m := by
  obtain ⟨loc, y, z, name, type, rfl, hname, hexpr, rfl⟩ := elaboratePair_eq_some hmean
  obtain ⟨c₂, e, ⟨s, hs⟩, hgap₁, hitems, ⟨s', hs'⟩, rfl, -⟩ := hx
  have hclear : Clear V c₂.rest := clear_of_standAll hG hitems hs'
  obtain ⟨m₁, c₃, hy, hgap₂, hlast⟩ := hitems
  simp only [SExpr.list.sizeOf_spec, List.cons.sizeOf_spec] at hsize
  rw [TypedBinder.depth] at hroom
  have hlow : V.Room g k := hroom.imp fun hk => by omega
  have hpair : Returns (rules.call source k) source V typedBinder c₂
      (.mk name.loc name.value type) e :=
    Reads.named _ (Reads.bind (returns_varName hG hy hname hgap₂ hlast hs' hlow)
      (Reads.map (TypedBinder.mk name.loc name.value)
        (returns_last hG ih (by omega) hlast hexpr hs' hroom)))
  exact Reads.parens hs (hG.returns hgap₁ hclear hlow) hpair hs'

theorem returns_pair {x : SExpr Location} {xs : List (SExpr Location)} {b : TypedBinder}
    {c₁ : Cursor} {r : Text} (hsize : sizeOf x < n) (hx : x.StandsBy G source c m)
    (hmean : elaboratePair id x = some b) (hgap : G m c₁)
    (hxs : SExpr.StandAllBy G source xs c₁ d) (hr : d.rest = ')' :: r)
    (hroom : V.Room (b.depth + 1 + g) k) :
    Returns (rules.call source k) source V (parens skip typedBinder) c b c₁ :=
  Reads.close (reads_pair hG ih hsize hx hmean hroom)
    (hG.returns hgap (clear_of_standAll hG hxs hr) (hroom.imp fun hk => by omega))

theorem returns_many_pair {xs : List (SExpr Location)} {bs : List TypedBinder} {r : Text}
    (hsize : sizeOf xs < n) (hxs : SExpr.StandAllBy G source xs c d)
    (hmean : elaboratePairs id xs = some bs) (hr : d.rest = ')' :: r)
    (hroom : V.Room (typedBindersDepth bs + 1 + g) k) :
    Returns (rules.call source k) source V (parens skip typedBinder).many c bs d := by
  have hcall := rules.call_reaches source k
  induction xs generalizing c bs with
  | nil =>
      obtain rfl := hxs
      cases hmean
      refine Returns.many_nil hcall (Declines.parens fun v hv hhead => ?_)
      have hopen := head_append (V := V) hr v hv _ hhead
      revert hopen
      decide
  | cons x xs ihx =>
      obtain ⟨m, c₁, hx, hgap, hall⟩ := hxs
      obtain ⟨b, bs', hb, hbs, rfl⟩ := elaboratePairs_cons_eq_some hmean
      simp only [List.cons.sizeOf_spec] at hsize
      rw [typedBindersDepth] at hroom
      exact Returns.many_cons hcall
        (returns_pair hG ih (by omega) hx hb hgap hall hr (hroom.imp fun hk => by omega))
        (offset_ne_of_stands hG hx hgap)
        (ihx (by omega) hall hbs (hroom.imp fun hk => by omega))

/-- The names that a dependent type binds, up to the trivia after them. -/
theorem reads_typedBinders {x : SExpr Location} {bs : List TypedBinder} (hsize : sizeOf x < n)
    (hx : x.StandsBy G source c m) (hmean : elaborateTypedBinders id x = some bs)
    (hne : bs ≠ []) (hroom : V.Room (typedBindersDepth bs + 1 + g) k) :
    Reads (rules.call source k) source V skip typedBinders c bs m := by
  obtain ⟨loc, items, rfl, hpairs⟩ := elaborateTypedBinders_eq_some hmean
  obtain ⟨c₂, e, ⟨s, hs⟩, hgap', hitems, ⟨s', hs'⟩, rfl, -⟩ := hx
  cases items with
  | nil =>
      cases hpairs
      exact absurd rfl hne
  | cons y ys =>
      obtain ⟨b, bs', hb, hbs, rfl⟩ := elaboratePairs_cons_eq_some hpairs
      have hclear : Clear V c₂.rest := clear_of_standAll hG hitems hs'
      obtain ⟨m', c₃, hy, hgap'', hys⟩ := hitems
      simp only [SExpr.list.sizeOf_spec, List.cons.sizeOf_spec] at hsize
      rw [typedBindersDepth] at hroom
      have hlow : V.Room g k := hroom.imp fun hk => by omega
      have hinside : Returns (rules.call source k) source V (parens skip typedBinder).many1 c₂
          (b :: bs') e :=
        Returns.many1
          (returns_pair hG ih (by omega) hy hb hgap'' hys hs' (hroom.imp fun hk => by omega))
          (returns_many_pair hG ih (by omega) hys hbs hs' (hroom.imp fun hk => by omega))
      exact Reads.parens hs (hG.returns hgap' hclear hlow) hinside hs'

theorem returns_typedBinders {x : SExpr Location} {xs : List (SExpr Location)}
    {bs : List TypedBinder} {c₁ : Cursor} {r : Text} (hsize : sizeOf x < n)
    (hx : x.StandsBy G source c m) (hmean : elaborateTypedBinders id x = some bs)
    (hne : bs ≠ []) (hgap : G m c₁) (hxs : SExpr.StandAllBy G source xs c₁ d)
    (hr : d.rest = ')' :: r) (hroom : V.Room (typedBindersDepth bs + 1 + g) k) :
    Returns (rules.call source k) source V typedBinders c bs c₁ :=
  Reads.close (reads_typedBinders hG ih hsize hx hmean hne hroom)
    (hG.returns hgap (clear_of_standAll hG hxs hr) (hroom.imp fun hk => by omega))

/-- What follows a keyword. -/
theorem returns_headBody {h : Head} {x : SExpr Location} {items : List (SExpr Location)}
    {node : Node} {r : Text} (hsize : sizeOf items < n) (hhead : x.head? = some h)
    (hitems : SExpr.StandAllBy G source items c d) (hmean : ListMeaning id x items node)
    (hr : d.rest = ')' :: r) (hroom : V.Room (node.depth + g) k) :
    Returns (rules.call source k) source V (headBody h) c node d := by
  refine Reads.named _ ?_
  cases hmean with
  | @form f items args hhead' hargs =>
      obtain rfl := Option.some.inj (hhead.symm.trans hhead')
      exact Reads.map (Node.form f) (returns_arguments hG ih hsize hitems hargs hr hroom)
  | @arrow items e es hhead' hparts hne =>
      obtain rfl := Option.some.inj (hhead.symm.trans hhead')
      obtain ⟨y, ys, rfl, he, hes⟩ := elaborateAll_eq_cons hparts
      obtain ⟨m, c₁, hy, hgap, hall⟩ := hitems
      simp only [List.cons.sizeOf_spec] at hsize
      rw [Node.depth] at hroom
      exact Reads.bind
        (returns_innerExpr hG ih (by omega) hy he hgap hall hr (hroom.imp fun hk => by omega))
        (Reads.map (Node.arrow e) (returns_many1_innerExpr hG ih (by omega) hall hes hne hr
          (hroom.imp fun hk => by omega)))
  | @lambda names body bs e hhead' hbinders hne hbody =>
      obtain rfl := Option.some.inj (hhead.symm.trans hhead')
      obtain ⟨m, c₁, hnames, hgap, hlast⟩ := hitems
      simp only [List.cons.sizeOf_spec] at hsize
      rw [Node.depth] at hroom
      exact Reads.bind
        (returns_binders hG hnames hbinders hne hgap hlast hr (hroom.imp fun hk => by omega))
        (Reads.map (Node.lambda bs) (returns_last hG ih (by omega) hlast hbody hr hroom))
  | @quantifier q pairs body bs e hhead' hbinders hne hbody =>
      obtain rfl := Option.some.inj (hhead.symm.trans hhead')
      obtain ⟨m, c₁, hpairs, hgap, hlast⟩ := hitems
      simp only [List.cons.sizeOf_spec] at hsize
      rw [Node.depth] at hroom
      exact Reads.bind
        (returns_typedBinders hG ih (by omega) hpairs hbinders hne hgap hlast hr
          (hroom.imp fun hk => by omega))
        (Reads.map (Node.quantified q bs)
          (returns_last hG ih (by omega) hlast hbody hr (hroom.imp fun hk => by omega)))
  | application hhead' he hargs hne =>
      rw [hhead] at hhead'
      cases hhead'

end

/-! ## Keywords -/

/-- A table of keywords rejects what is none of its words. -/
theorem declines_keywordTable_of_stands {β : Type} {table : List (Text × β)} {x : SExpr Location}
    {c₁ : Cursor} (hx : x.StandsBy G source c m) (hclosed : x.Closed V m)
    (hlookup : ∀ label name, x = .word label name → table.lookup name = none)
    (hskip : Returns (rules.call source k) source V skip m () c₁) :
    Declines (rules.call source k) source V (keywordTable skip table) c := by
  have hother : ∀ {ch : Char} {s : Text}, c.rest = ch :: s → isWordStart ch = false →
      Declines (rules.call source k) source V (keywordTable skip table) c := by
    intro ch s hs hch
    refine Declines.keywordTable fun v hv => wordPrefix_eq_none_of_head fun x hx => ?_
    rw [head_append (V := V) hs v hv x hx]
    exact hch
  cases x with
  | word loc name =>
      obtain ⟨r', hr', hword⟩ := wordPrefix_of_stands hx hclosed
      obtain ⟨-, rfl, -⟩ := hx
      exact Declines.keywordTable_lookup hr' hword hskip (hlookup loc name rfl)
  | quoted loc name =>
      obtain ⟨s, hs, -⟩ := hx
      exact hother hs (by decide)
  | numeral loc run =>
      obtain ⟨hrun, -, -⟩ := hx
      obtain ⟨s, hs⟩ := exists_of_digitPrefix hrun
      obtain ⟨ch, t, rfl, hch⟩ := head_of_digitPrefix hrun
      exact hother (s := t ++ s) hs (isWordStart_of_isDigit hch)
  | list loc items =>
      obtain ⟨c₂, e, ⟨s, hs⟩, -⟩ := hx
      exact hother hs (by decide)

theorem returns_keywordTable_of_stands {β : Type} {table : List (Text × β)} {loc : Location}
    {name : Text} {entry : β} {c₁ : Cursor} (hx : (SExpr.word loc name).StandsBy G source c m)
    (hclosed : (SExpr.word loc name).Closed V m) (hlookup : table.lookup name = some entry)
    (hskip : Returns (rules.call source k) source V skip m () c₁) :
    Returns (rules.call source k) source V (keywordTable skip table) c ⟨loc, entry⟩ c₁ := by
  obtain ⟨r', hr', hword⟩ := wordPrefix_of_stands hx hclosed
  obtain ⟨-, rfl, rfl⟩ := hx
  exact Reads.close (Reads.keywordTable hr' hword hlookup) hskip

section

variable (hG : Skippable V G g)

include hG

theorem declines_keywordTable {β : Type} {table : List (Text × β)} {x : SExpr Location}
    {xs : List (SExpr Location)} {c₁ : Cursor} {r : Text} (hx : x.StandsBy G source c m)
    (hlookup : ∀ label name, x = .word label name → table.lookup name = none) (hgap : G m c₁)
    (hxs : SExpr.StandAllBy G source xs c₁ d) (hr : d.rest = ')' :: r) (hroom : V.Room g k) :
    Declines (rules.call source k) source V (keywordTable skip table) c :=
  declines_keywordTable_of_stands hx (Or.inl (rest_ne_nil_of_gap hG hgap hxs hr)) hlookup
    (hG.returns hgap (clear_of_standAll hG hxs hr) hroom)

theorem reads_keywordTable {β : Type} {table : List (Text × β)} {loc : Location} {name : Text}
    {entry : β} {xs : List (SExpr Location)} {c₁ : Cursor} {r : Text}
    (hx : (SExpr.word loc name).StandsBy G source c m) (hlookup : table.lookup name = some entry)
    (hgap : G m c₁) (hxs : SExpr.StandAllBy G source xs c₁ d) (hr : d.rest = ')' :: r)
    (hroom : V.Room g k) :
    Returns (rules.call source k) source V (keywordTable skip table) c ⟨loc, entry⟩ c₁ :=
  returns_keywordTable_of_stands hx (Or.inl (rest_ne_nil_of_gap hG hgap hxs hr)) hlookup
    (hG.returns hgap (clear_of_standAll hG hxs hr) hroom)

/-- What stands between the parentheses of an expression. -/
theorem returns_inside {n : Nat} (ih : ReadsBelow V G g source n)
    {items : List (SExpr Location)} {node : Node} {r : Text} (hsize : sizeOf items < n)
    (hitems : SExpr.StandAllBy G source items c d) (hmean : elaborateList id items = some node)
    (hr : d.rest = ')' :: r) (hroom : V.Room (node.depth + g) k) :
    Returns (rules.call source k) source V ((dispatch headTable headBody).orElse application) c
      node d := by
  obtain ⟨x, xs, rfl, hmeaning⟩ := elaborateList_eq_some hmean
  obtain ⟨m, c₁, hx, hgap, hall⟩ := hitems
  simp only [List.cons.sizeOf_spec] at hsize
  have hlow : V.Room g k := hroom.imp fun hk => by omega
  cases hhead : x.head? with
  | some h =>
      cases x with
      | word loc name =>
          exact Reads.orElse_left (Reads.bind (reads_keywordTable hG hx hhead hgap hall hr hlow)
            (returns_headBody hG ih (by omega) hhead hall hmeaning hr hroom))
      | quoted loc name => cases hhead
      | numeral loc run => cases hhead
      | list loc items => cases hhead
  | none =>
      cases hmeaning with
      | form hhead' hargs => cases hhead.symm.trans hhead'
      | lambda hhead' hbinders hne hbody => cases hhead.symm.trans hhead'
      | quantifier hhead' hbinders hne hbody => cases hhead.symm.trans hhead'
      | arrow hhead' hparts hne => cases hhead.symm.trans hhead'
      | @application items e es hhead' he hargs hne =>
          have hdispatch : Declines (rules.call source k) source V
              (dispatch headTable headBody) c := by
            refine Declines.bind (declines_keywordTable hG hx (fun label name hword => ?_)
              hgap hall hr hlow)
            rw [hword] at hhead
            exact hhead
          rw [Node.depth] at hroom
          exact Reads.orElse_right hdispatch (Reads.named _ (Reads.bind
            (returns_innerExpr hG ih (by omega) hx he hgap hall hr (hroom.imp fun hk => by omega))
            (Reads.map (Node.app e) (returns_many1_innerExpr hG ih (by omega) hall hargs hne hr
              (hroom.imp fun hk => by omega)))))

theorem readsBelow (source : String) (n : Nat) : ReadsBelow V G g source n := by
  induction n with
  | zero =>
      intro k x c m e hsize
      omega
  | succ n ih =>
      intro k x c m e hsize hx hmean hclosed hroom
      cases x with
      | word loc name =>
          obtain ⟨node, hnode, rfl⟩ := elaborate_word_eq_some hmean
          rcases elaborateWord_eq_some hnode with ⟨value, hlookup, rfl⟩ | ⟨hfree, rfl⟩
          · exact reads_constant hx hclosed hlookup
          · exact reads_variable hx hclosed hfree
      | quoted loc name =>
          cases hmean
          exact reads_tick hx hclosed
      | numeral loc run =>
          obtain ⟨value, hvalue, rfl⟩ := elaborate_numeral_eq_some hmean
          exact reads_natLit hx hclosed hvalue
      | list loc items =>
          obtain ⟨c₁, d, ⟨r, hr⟩, hgap, hitems, ⟨r', hr'⟩, rfl, rfl⟩ := hx
          rw [elaborate] at hmean
          obtain ⟨node, hnode, rfl⟩ := Option.map_eq_some_iff.mp hmean
          simp only [SExpr.list.sizeOf_spec] at hsize
          rw [exprDepth] at hroom
          exact reads_compound hr
            (hG.returns hgap (clear_of_standAll hG hitems hr') (hroom.imp fun hk => by omega))
            (returns_inside hG ih (by omega) hitems hnode hr' hroom) hr'

/-- An expression is read where it stands, up to the trivia after it. -/
theorem reads_expr {x : SExpr Location} {e : Expr} (hx : x.StandsBy G source c m)
    (hmean : elaborate id x = some e) (hclosed : x.Closed V m)
    (hroom : V.Room (exprDepth e + g) k) :
    Reads (rules.call source k) source V skip expr c e m :=
  readsBelow hG source (sizeOf x + 1) k x c m e (Nat.lt_succ_self _) hx hmean hclosed hroom

end

end Grammar

end PieSyntax
