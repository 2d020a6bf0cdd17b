import PieSyntax.Proofs.Balance
import PieSyntax.Proofs.Subexpressions
import PieSyntax.Proofs.Spans

/-!
# What spans cover, and how they are ordered

A name, a numeral and a keyword span just their own text; every other expression, and every top-level
form with a command, spans a bracketed text.  The pieces of a bracketed construct, that is its names and
expressions, lie between its two parentheses, one after the other in the order of the text, and so do
the forms in a program.

An S-expression stands where what it stands for does.  So the pieces are ordered because the items of a
list are, and each span covers what the S-expression there consists of.

## Main results

* `SExpr.ListMeaning.inOrder`, `CommandMeaning.inOrder` — the pieces of a list and of a command.
* `placed_of_parseSource` — all spans of a program.
-/

namespace PieSyntax

variable {ceiling : Nat}

/-! ## Order -/

section

variable {α : Type}

/-- The things lie between the two offsets, one after the other. -/
def InOrder (spans : α → Nat → Nat → Prop) : List α → Nat → Nat → Prop
  | [], _, _ => True
  | x :: xs, lo, hi => ∃ i j, lo ≤ i ∧ j ≤ hi ∧ spans x i j ∧ InOrder spans xs j hi

variable {spans : α → Nat → Nat → Prop} {xs ys : List α} {lo mid hi lo' hi' : Nat}

theorem InOrder.mono (h : InOrder spans xs lo hi) (hlo : lo' ≤ lo) (hhi : hi ≤ hi') :
    InOrder spans xs lo' hi' := by
  induction xs generalizing lo lo' with
  | nil => trivial
  | cons x xs ih =>
      obtain ⟨i, j, hi, hj, hx, hxs⟩ := h
      exact ⟨i, j, Nat.le_trans hlo hi, Nat.le_trans hj hhi, hx, ih hxs (Nat.le_refl j)⟩

theorem InOrder.append (hxs : InOrder spans xs lo mid) (hys : InOrder spans ys mid hi)
    (hlo : lo ≤ mid) (hhi : mid ≤ hi) : InOrder spans (xs ++ ys) lo hi := by
  induction xs generalizing lo with
  | nil => exact hys.mono hlo (Nat.le_refl hi)
  | cons x xs ih =>
      obtain ⟨i, j, hi, hj, hx, hxs⟩ := hxs
      exact ⟨i, j, hi, Nat.le_trans hj hhi, hx, ih hxs hj⟩

end

/-! ## Pieces -/

/-- A piece of a construct: a name that is bound or declared, or an expression. -/
inductive Piece where
  | name (name : Located Text)
  | expr (e : Expr)

/-- The name that an abstraction binds. -/
def Binder.piece (b : Binder) : Piece := .name ⟨b.loc, b.name⟩

/-- The name that a dependent type binds, and its type. -/
def TypedBinder.pieces (b : TypedBinder) : List Piece := [.name ⟨b.loc, b.name⟩, .expr b.type]

/-- The pieces of a node, in the order of the text. -/
def Node.pieces : Node → List Piece
  | .var _ => []
  | .tick _ => []
  | .natLit _ => []
  | .constant _ => []
  | .form _ args => args.toList.map .expr
  | .lambda bs body => bs.map Binder.piece ++ [.expr body]
  | .quantified _ bs body => bs.flatMap TypedBinder.pieces ++ [.expr body]
  | .arrow arg rest => .expr arg :: rest.map .expr
  | .app head args => .expr head :: args.map .expr

/-- The pieces of a statement, in the order of the text. -/
def Statement.pieces : Statement → List Piece
  | .claim name type => [.name name, .expr type]
  | .define name value => [.name name, .expr value]
  | .checkSame type left right => [.expr type, .expr left, .expr right]
  | .expr e => [.expr e]

/-! ## What spans cover -/

/-- The location covers the text from the offset `i` up to the offset `j`, in the source. -/
structure Location.Spans (source : String) (s : Text) (l : Location) (i j : Nat) : Prop where
  source_eq : l.source = source
  spansFrom : l.SpansFrom s i j

/-- The piece stands between the two offsets; a name is just the text there. -/
def Piece.Spans (source : String) (s : Text) : Piece → Nat → Nat → Prop
  | .name x, i, j => x.loc.Spans source s i j ∧ (s.take j).drop i = x.value
  | .expr e, i, j => e.loc.Spans source s i j

/-- The text that a node covers. -/
def Node.Covers : Node → Text → Prop
  | .var name, u => u = name
  | .tick name, u => u = '\'' :: name
  | .natLit value, u => u ≠ [] ∧ (∀ ch ∈ u, isDigit ch = true) ∧ numeralValue u = value
  | .constant c, u => constantTable.lookup u = some c
  | _, u => Bracketed u

/-- The expression covers a text of its kind, with its pieces within the parentheses. -/
def ExprPlaced (source : String) (s : Text) (e : Expr) : Prop :=
  ∃ i j, e.loc.Spans source s i j ∧ e.value.Covers ((s.take j).drop i) ∧
    InOrder (Piece.Spans source s) e.value.pieces (i + 1) (j - 1)

/-- The top-level form covers a bracketed text, with its pieces within the parentheses; an expression
that stands for itself covers what the form does. -/
def FormPlaced (source : String) (s : Text) (t : TopLevel) : Prop :=
  ∃ i j, t.loc.Spans source s i j ∧
    match t.value with
    | .expr e => e.loc = t.loc
    | statement => Bracketed ((s.take j).drop i) ∧
      InOrder (Piece.Spans source s) statement.pieces (i + 1) (j - 1)

/-! ## S-expressions in order -/

variable {source : String} {s : Text} {c d m : Cursor} {x : SExpr Location}
variable {xs : List (SExpr Location)}

theorem SExpr.StandsBy.spans (h : x.Stands source c m) (hc : c.At s) :
    x.label.Spans source s c.offset m.offset :=
  ⟨by rw [h.label_eq], h.spansFrom hc⟩

/-- The first of several S-expressions, and then the others. -/
theorem inOrder_of_standAll_cons {α : Type} {spans : α → Nat → Nat → Prop} {as bs : List α}
    (h : SExpr.StandAll source (x :: xs) c d) (hc : c.At s)
    (hfirst : ∀ m, x.Stands source c m → InOrder spans as c.offset m.offset)
    (hrest : ∀ c₁, c₁.At s → SExpr.StandAll source xs c₁ d → InOrder spans bs c₁.offset d.offset) :
    InOrder spans (as ++ bs) c.offset d.offset := by
  obtain ⟨m, c₁, hx, hgap, hxs⟩ := h
  have hc₁ : c₁.At s := (hx.reaches.1.trans hgap.reaches).at hc
  exact (hfirst m hx).append ((hrest c₁ hc₁ hxs).mono hgap.reaches.offset_le (Nat.le_refl _))
    hx.reaches.1.offset_le (hgap.reaches.trans hxs.reaches).offset_le

/-- What the first of several S-expressions stands for is no piece. -/
theorem inOrder_of_standAll_tail {α : Type} {spans : α → Nat → Nat → Prop} {bs : List α}
    (h : SExpr.StandAll source (x :: xs) c d) (hc : c.At s)
    (hrest : ∀ c₁, c₁.At s → SExpr.StandAll source xs c₁ d → InOrder spans bs c₁.offset d.offset) :
    InOrder spans bs c.offset d.offset := by
  have hnone : ∀ m, x.Stands source c m → InOrder spans [] c.offset m.offset := fun _ _ => trivial
  exact inOrder_of_standAll_cons h hc hnone hrest

theorem Piece.inOrder_expr {e : Expr} (h : x.Stands source c m) (hc : c.At s)
    (he : elaborate id x = some e) :
    InOrder (Piece.Spans source s) [.expr e] c.offset m.offset := by
  have hloc : e.loc = x.label := elaborate_loc he
  refine ⟨c.offset, m.offset, Nat.le_refl _, Nat.le_refl _, ?_, trivial⟩
  rw [Piece.Spans, hloc]
  exact h.spans hc

theorem Piece.inOrder_name {name : Located Text} (h : x.Stands source c m) (hc : c.At s)
    (hname : elaborateName id x = some name) :
    InOrder (Piece.Spans source s) [.name name] c.offset m.offset := by
  obtain ⟨loc, word, rfl, -, rfl⟩ := elaborateName_eq_some hname
  refine ⟨c.offset, m.offset, Nat.le_refl _, Nat.le_refl _, ⟨h.spans hc, ?_⟩, trivial⟩
  obtain ⟨hword, rfl, -⟩ := h
  obtain ⟨r, hr⟩ := exists_of_wordPrefix hword
  exact hc.slice (Cursor.passes_skip hr)

theorem inOrder_of_elaborateAll {es : List Expr} (h : SExpr.StandAll source xs c d) (hc : c.At s)
    (hes : elaborateAll id xs = some es) :
    InOrder (Piece.Spans source s) (es.map .expr) c.offset d.offset := by
  induction xs generalizing c es with
  | nil =>
      cases hes
      trivial
  | cons x xs ih =>
      obtain ⟨e, es', he, hes', rfl⟩ := elaborateAll_cons_eq_some hes
      exact inOrder_of_standAll_cons h hc (fun m hx => Piece.inOrder_expr hx hc he)
        fun c₁ hc₁ hxs => ih hxs hc₁ hes'

theorem inOrder_of_last {e : Expr} (h : SExpr.StandAll source [x] c d) (hc : c.At s)
    (he : elaborate id x = some e) :
    InOrder (Piece.Spans source s) [.expr e] c.offset d.offset := by
  have hall : elaborateAll id [x] = some [e] := by rw [elaborateAll, he]; rfl
  exact inOrder_of_elaborateAll h hc hall

theorem inOrder_of_elaborateNames {bs : List Binder} (h : SExpr.StandAll source xs c d)
    (hc : c.At s) (hbs : elaborateNames id xs = some bs) :
    InOrder (Piece.Spans source s) (bs.map Binder.piece) c.offset d.offset := by
  induction xs generalizing c bs with
  | nil =>
      cases hbs
      trivial
  | cons x xs ih =>
      obtain ⟨name, bs', hname, hbs', rfl⟩ := elaborateNames_cons_eq_some hbs
      exact inOrder_of_standAll_cons h hc
        (fun m hx => Piece.inOrder_name hx hc hname) fun c₁ hc₁ hxs => ih hxs hc₁ hbs'

/-- What is in order between the parentheses of a list is in order in the list. -/
theorem inOrder_of_list {loc : Location} {items : List (SExpr Location)} {ps : List Piece}
    (h : (SExpr.list loc items).Stands source c m) (hc : c.At s)
    (hitems : ∀ c₁ d, c₁.At s → SExpr.StandAll source items c₁ d →
      InOrder (Piece.Spans source s) ps c₁.offset d.offset) :
    InOrder (Piece.Spans source s) ps (c.offset + 1) (m.offset - 1) := by
  obtain ⟨c₁, d, ⟨r, hr⟩, hgap, hall, -, rfl, -⟩ := h
  have hopen : c.Reaches (c.skip ['(']) := Cursor.reaches_skip hr
  have hc₁ : c₁.At s := (hopen.trans hgap.reaches).at hc
  exact (hitems c₁ d hc₁ hall).mono hgap.reaches.offset_le (Nat.le_refl _)

/-- A name and an expression. -/
theorem inOrder_of_pair {y : SExpr Location} {name : Located Text} {e : Expr}
    (h : SExpr.StandAll source [x, y] c d) (hc : c.At s) (hname : elaborateName id x = some name)
    (he : elaborate id y = some e) :
    InOrder (Piece.Spans source s) [.name name, .expr e] c.offset d.offset :=
  inOrder_of_standAll_cons h hc (fun _ hx => Piece.inOrder_name hx hc hname)
    fun _ hc₁ hy => inOrder_of_last hy hc₁ he

theorem inOrder_of_elaboratePair {b : TypedBinder} (h : x.Stands source c m) (hc : c.At s)
    (hb : elaboratePair id x = some b) :
    InOrder (Piece.Spans source s) b.pieces c.offset m.offset := by
  obtain ⟨loc, y, z, name, type, rfl, hname, htype, rfl⟩ := elaboratePair_eq_some hb
  have hinside := inOrder_of_list h hc fun c₁ d hc₁ hall => inOrder_of_pair hall hc₁ hname htype
  exact hinside.mono (Nat.le_succ _) (Nat.sub_le _ _)

theorem inOrder_of_elaboratePairs {bs : List TypedBinder} (h : SExpr.StandAll source xs c d)
    (hc : c.At s) (hbs : elaboratePairs id xs = some bs) :
    InOrder (Piece.Spans source s) (bs.flatMap TypedBinder.pieces) c.offset d.offset := by
  induction xs generalizing c bs with
  | nil =>
      cases hbs
      trivial
  | cons x xs ih =>
      obtain ⟨b, bs', hb, hbs', rfl⟩ := elaboratePairs_cons_eq_some hbs
      rw [List.flatMap_cons]
      exact inOrder_of_standAll_cons h hc (fun m hx => inOrder_of_elaboratePair hx hc hb)
        fun c₁ hc₁ hxs => ih hxs hc₁ hbs'

/-- A list of names and then the body of the form. -/
theorem inOrder_of_names_body {loc : Location} {items : List (SExpr Location)} {y : SExpr Location}
    {ps : List Piece} {e : Expr} (h : SExpr.StandAll source [.list loc items, y] c d) (hc : c.At s)
    (hitems : ∀ c₁ d, c₁.At s → SExpr.StandAll source items c₁ d →
      InOrder (Piece.Spans source s) ps c₁.offset d.offset)
    (he : elaborate id y = some e) :
    InOrder (Piece.Spans source s) (ps ++ [.expr e]) c.offset d.offset :=
  inOrder_of_standAll_cons h hc
    (fun _ hx => (inOrder_of_list hx hc hitems).mono (Nat.le_succ _) (Nat.sub_le _ _))
    fun _ hc₁ hy => inOrder_of_last hy hc₁ he

/-! ## Constructs -/

/-- The pieces of a list are in order. -/
theorem ListMeaning.inOrder {items : List (SExpr Location)} {node : Node}
    (hmeaning : ListMeaning id x items node) (h : SExpr.StandAll source (x :: items) c d)
    (hc : c.At s) : InOrder (Piece.Spans source s) node.pieces c.offset d.offset := by
  -- A keyword is no piece.
  have hkeyword : ∀ {ps : List Piece}, (∀ c₁, c₁.At s → SExpr.StandAll source items c₁ d →
      InOrder (Piece.Spans source s) ps c₁.offset d.offset) →
        InOrder (Piece.Spans source s) ps c.offset d.offset :=
    fun hrest => inOrder_of_standAll_tail h hc hrest
  cases hmeaning with
  | form hhead hargs => exact hkeyword fun c₁ hc₁ hall => inOrder_of_elaborateAll hall hc₁ hargs
  | @lambda names body bs e hhead hbinders hne hbody =>
      obtain ⟨loc, words, rfl, hwords⟩ := elaborateBinders_eq_some hbinders
      exact hkeyword fun c₁ hc₁ hall => inOrder_of_names_body hall hc₁
        (fun c₂ e hc₂ hnames => inOrder_of_elaborateNames hnames hc₂ hwords) hbody
  | @quantifier q pairs body bs e hhead hbinders hne hbody =>
      obtain ⟨loc, ps, rfl, hps⟩ := elaborateTypedBinders_eq_some hbinders
      exact hkeyword fun c₁ hc₁ hall => inOrder_of_names_body hall hc₁
        (fun c₂ e hc₂ hpairs => inOrder_of_elaboratePairs hpairs hc₂ hps) hbody
  | arrow hhead hparts hne =>
      exact hkeyword fun c₁ hc₁ hall => inOrder_of_elaborateAll hall hc₁ hparts
  | @application items e es hhead he hargs hne =>
      have hall : elaborateAll id (x :: items) = some (e :: es) := by
        rw [elaborateAll, he, hargs]
        rfl
      exact inOrder_of_elaborateAll h hc hall

/-- The pieces of a command are in order. -/
theorem CommandMeaning.inOrder {command : Command} {items : List (SExpr Location)}
    {statement : Statement} (hmeaning : CommandMeaning id command items statement)
    (h : SExpr.StandAll source items c d) (hc : c.At s) :
    InOrder (Piece.Spans source s) statement.pieces c.offset d.offset := by
  cases hmeaning with
  | claim hname htype => exact inOrder_of_pair h hc hname htype
  | define hname hvalue => exact inOrder_of_pair h hc hname hvalue
  | @checkSame x y z type left right htype hleft hright =>
      have hall : elaborateAll id [x, y, z] = some [type, left, right] := by
        rw [elaborateAll, htype, elaborateAll, hleft, elaborateAll, hright]
        rfl
      exact inOrder_of_elaborateAll h hc hall

/-- What a word stands for covers that word and has no pieces. -/
theorem covers_of_elaborateWord {u : Text} {node : Node} (h : elaborateWord u = some node) :
    node.Covers u ∧ node.pieces = [] := by
  rcases elaborateWord_eq_some h with ⟨c, hlookup, rfl⟩ | ⟨-, rfl⟩
  · exact ⟨hlookup, rfl⟩
  · exact ⟨rfl, rfl⟩

/-- An expression covers what its S-expression consists of. -/
theorem exprPlaced_of_stands {e : Expr} (h : x.Stands source c m) (hc : c.At s)
    (he : elaborate id x = some e) : ExprPlaced source s e := by
  have hloc : e.loc = x.label := elaborate_loc he
  obtain ⟨u, hu⟩ := h.reaches.1
  refine ⟨c.offset, m.offset, hloc ▸ h.spans hc, ?_⟩
  rw [hc.slice hu]
  cases x with
  | word loc name =>
      obtain ⟨hword, rfl, -⟩ := h
      obtain ⟨r, hr⟩ := exists_of_wordPrefix hword
      obtain rfl : u = name := (hc.slice hu).symm.trans (hc.slice (Cursor.passes_skip hr))
      obtain ⟨node, hnode, rfl⟩ := elaborate_word_eq_some he
      obtain ⟨hcovers, hpieces⟩ := covers_of_elaborateWord hnode
      refine ⟨hcovers, ?_⟩
      rw [hpieces]
      trivial
  | quoted loc name =>
      obtain ⟨r, hr, hname, rfl, -⟩ := h
      obtain ⟨r', rfl⟩ := exists_of_wordPrefix hname
      obtain rfl : u = '\'' :: name :=
        (hc.slice hu).symm.trans (hc.slice (Cursor.passes_skip (u := '\'' :: name) hr))
      cases he
      exact ⟨rfl, trivial⟩
  | numeral loc run =>
      obtain ⟨hrun, rfl, -⟩ := h
      obtain ⟨r, hr, hne, hdigits, -⟩ := digitPrefix_eq_some_iff.mp hrun
      obtain rfl : u = run := (hc.slice hu).symm.trans (hc.slice (Cursor.passes_skip hr))
      obtain ⟨value, hvalue, rfl⟩ := elaborate_numeral_eq_some he
      obtain ⟨-, rfl⟩ := readNumeral_eq_ok_iff.mp hvalue
      exact ⟨⟨hne, hdigits, rfl⟩, trivial⟩
  | list loc items =>
      rw [elaborate] at he
      obtain ⟨node, hnode, rfl⟩ := Option.map_eq_some_iff.mp he
      obtain ⟨y, ys, rfl, hmeaning⟩ := elaborateList_eq_some hnode
      have hbracketed := h.bracketed hu
      refine ⟨?_, inOrder_of_list h hc fun c₁ d hc₁ hall => hmeaning.inOrder hall hc₁⟩
      cases hmeaning <;> exact hbracketed

/-- A top-level form covers what its S-expression consists of. -/
theorem formPlaced_of_stands {t : TopLevel} (h : x.Stands source c m) (hc : c.At s)
    (ht : elaborateTopLevel id x = some t) : FormPlaced source s t := by
  have hloc : t.loc = x.label := elaborateTopLevel_loc ht
  obtain ⟨u, hu⟩ := h.reaches.1
  refine ⟨c.offset, m.offset, hloc ▸ h.spans hc, ?_⟩
  rw [hc.slice hu]
  rcases elaborateTopLevel_eq_some ht with
    ⟨label, l, name, command, items, statement, rfl, -, hmeaning, rfl⟩ | ⟨e, -, he, rfl⟩
  · have hbracketed := h.bracketed hu
    have horder := inOrder_of_list h hc fun c₁ d hc₁ hall =>
      inOrder_of_standAll_tail hall hc₁ fun c₂ hc₂ hitems => hmeaning.inOrder hitems hc₂
    cases hmeaning <;> exact ⟨hbracketed, horder⟩
  · rfl

/-! ## Programs -/

theorem inOrder_of_elaborateProgram {ts : List TopLevel} (h : SExpr.StandAll source xs c d)
    (hc : c.At s) (hts : elaborateProgram id xs = some ts) :
    InOrder (fun t => t.loc.Spans source s) ts c.offset d.offset := by
  induction xs generalizing c ts with
  | nil =>
      cases hts
      trivial
  | cons x xs ih =>
      rw [elaborateProgram] at hts
      obtain ⟨t, ht, hts⟩ := Option.bind_eq_some_iff.mp hts
      obtain ⟨ts', hts', rfl⟩ := Option.map_eq_some_iff.mp hts
      have hloc : t.loc = x.label := elaborateTopLevel_loc ht
      have hfirst : ∀ m, x.Stands source c m →
          InOrder (fun t => t.loc.Spans source s) [t] c.offset m.offset := by
        intro m hx
        have hspans : t.loc.Spans source s c.offset m.offset := hloc ▸ hx.spans hc
        exact ⟨c.offset, m.offset, Nat.le_refl _, Nat.le_refl _, hspans, trivial⟩
      exact inOrder_of_standAll_cons h hc hfirst fun c₁ hc₁ hxs => ih hxs hc₁ hts'

/-- All spans of a program lie in its source: those of the forms one after the other behind the first
line, and each form and each expression in it covers a text of its kind, with its pieces in order. -/
theorem placed_of_parseSource {ts : List TopLevel} (h : parseSource source s ceiling = .ok ts) :
    InOrder (fun t => t.loc.Spans source s) ts Grammar.header.length s.length ∧
      ∀ t ∈ ts, FormPlaced source s t ∧ ∀ e ∈ t.subexpressions, ExprPlaced source s e := by
  obtain ⟨xs, c₁, d, r, hr, hgap, hxs, hmean, hd⟩ := stands_of_parseSource h
  have hstart : (Cursor.start s).Reaches ((Cursor.start s).skip Grammar.header) :=
    Cursor.reaches_skip (c := .start s) hr
  have hc₁ : c₁.At s := (hstart.trans hgap.reaches).at (Cursor.start_at s)
  have hheader : Grammar.header.length ≤ c₁.offset := by
    have hle := hgap.reaches.offset_le
    rw [Cursor.skip] at hle
    simpa [Cursor.start] using hle
  have hend : d.offset ≤ s.length := (hxs.reaches.at hc₁).1
  refine ⟨(inOrder_of_elaborateProgram hxs hc₁ hmean).mono hheader hend, fun t ht => ?_⟩
  obtain ⟨x, hx, hxt⟩ := exists_of_mem_program hmean ht
  obtain ⟨c, m, hc, hstands, -⟩ := hxs.mem hx
  refine ⟨formPlaced_of_stands hstands (hc.at hc₁) hxt, fun e he => ?_⟩
  obtain ⟨y, hy, hye⟩ := exists_within_of_mem_topLevel hxt he
  obtain ⟨c', m', hc', hstands', -⟩ := hstands.within hy
  exact exprPlaced_of_stands hstands' (hc'.at (hc.at hc₁)) hye

/-- A program with parentheses in its comments. -/
def bracketsInComments : Text :=
  "#lang pie\n(claim f ; (one\n (-> Nat #;(two) Nat))\n(define f (lambda (n) (add1 n)))\n(f 2)".toList

/-- All spans of the program lie in its source. -/
theorem placed_bracketsInComments : ∃ ts, parseSource "f.pie" bracketsInComments = .ok ts ∧
    ts.length = 3 ∧
    InOrder (fun t => t.loc.Spans "f.pie" bracketsInComments) ts Grammar.header.length
      bracketsInComments.length ∧
    ∀ t ∈ ts, FormPlaced "f.pie" bracketsInComments t ∧
      ∀ e ∈ t.subexpressions, ExprPlaced "f.pie" bracketsInComments e := by
  have hcount : (parseSource "f.pie" bracketsInComments).toOption.map List.length = some 3 := by
    decide +kernel
  cases hread : parseSource "f.pie" bracketsInComments with
  | error e =>
      rw [hread] at hcount
      cases hcount
  | ok ts =>
      rw [hread] at hcount
      exact ⟨ts, rfl, Option.some.inj hcount, placed_of_parseSource hread⟩

end PieSyntax
