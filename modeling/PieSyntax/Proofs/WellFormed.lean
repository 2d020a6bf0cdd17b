import PieSyntax.Proofs.Entry
import PieSyntax.Proofs.Subexpressions

/-!
# Well-formed programs

Trees can be built that no text is read as: with a name that is no word or is reserved, or with a
list of binders or arguments that is empty.  The trees that are read have none of these.

## Main results

* `isWord_iff_eval_identifier` — a word is a text that the identifier parser consumes entirely.
* `wellFormed_of_parseSource` — what is returned for a program is well formed.
-/

namespace PieSyntax

variable {ceiling : Nat}

/-- A word that may be used as a name. -/
def IsName (name : Text) : Prop := IsWord name ∧ Grammar.isFreeName name = true

/-- The names that a node holds are names, and none of its lists is empty that must not be. -/
def Node.Proper : Node → Prop
  | .var name => IsName name
  | .tick name => IsWord name
  | .natLit _ => True
  | .constant _ => True
  | .form _ _ => True
  | .lambda bs _ => bs ≠ [] ∧ ∀ b ∈ bs, IsName b.name
  | .quantified _ bs _ => bs ≠ [] ∧ ∀ b ∈ bs, IsName b.name
  | .arrow _ rest => rest ≠ []
  | .app _ args => args ≠ []

/-- The name that a statement introduces, if it does, is a name. -/
def Statement.Proper : Statement → Prop
  | .claim name _ => IsName name.value
  | .define name _ => IsName name.value
  | .checkSame _ _ _ => True
  | .expr _ => True

/-- The top-level form is well formed, and all expressions within it are. -/
def TopLevel.WellFormed (t : TopLevel) : Prop :=
  t.value.Proper ∧ ∀ e ∈ t.subexpressions, e.value.Proper

theorem isWord_iff_eval_identifier {source : String} {k : Nat} {name : Text} : IsWord name ↔
    ∃ d, (identifier : PieParser Text).eval (Grammar.rules.call source k) source
      (Cursor.start name) = .ok name d ∧ d.rest = [] := by
  constructor
  · intro h
    have hrest := Cursor.rest_skip (c := Cursor.start name) (u := name) (List.append_nil name).symm
    exact ⟨_, eval_identifier_of_some _ _ h, hrest⟩
  · rintro ⟨d, hd, -⟩
    exact (eval_identifier_ok hd).1

/-! ## Tokens -/

variable {L : Type}

/-- The words are words, and the numerals are runs of digits. -/
def SExpr.IsToken : SExpr L → Prop
  | .word _ name => IsWord name
  | .quoted _ name => IsWord name
  | .numeral _ run => run ≠ [] ∧ ∀ ch ∈ run, isDigit ch = true
  | .list _ _ => True

/-- All words are words, and all numerals are runs of digits. -/
def SExpr.Lexical (x : SExpr L) : Prop := ∀ y ∈ x.within, y.IsToken

theorem SExpr.Lexical.of_mem {label : L} {items : List (SExpr L)} {x : SExpr L}
    (h : (SExpr.list label items).Lexical) (hx : x ∈ items) : x.Lexical := by
  intro y hy
  refine h y ?_
  rw [within]
  exact List.mem_cons_of_mem _ (within_subset_allWithin hx hy)

theorem SExpr.lexical_list {label : L} {items : List (SExpr L)} (h : ∀ x ∈ items, x.Lexical) :
    (SExpr.list label items).Lexical := by
  intro y hy
  rw [within] at hy
  rcases List.mem_cons.mp hy with rfl | hy
  · trivial
  · obtain ⟨x, hx, hy⟩ := mem_allWithin.mp hy
    exact h x hx y hy

/-! ## Names -/

variable {place : L → Location}

theorem isName_of_elaborateName {x : SExpr L} {name : Located Text}
    (h : elaborateName place x = some name) (hx : x.Lexical) : IsName name.value := by
  obtain ⟨label, word, rfl, hfree, rfl⟩ := elaborateName_eq_some h
  exact ⟨hx _ (SExpr.mem_within_self _), hfree⟩

theorem isName_of_elaborateNames {xs : List (SExpr L)} {bs : List Binder}
    (h : elaborateNames place xs = some bs) (hxs : ∀ x ∈ xs, x.Lexical) :
    ∀ b ∈ bs, IsName b.name := by
  induction xs generalizing bs with
  | nil =>
      cases h
      intro b hb
      cases hb
  | cons x xs ih =>
      obtain ⟨name, bs', hname, hbs, rfl⟩ := elaborateNames_cons_eq_some h
      intro b hb
      rcases List.mem_cons.mp hb with rfl | hb
      · exact isName_of_elaborateName hname (hxs x (by simp))
      · exact ih hbs (fun y hy => hxs y (by simp [hy])) b hb

theorem isName_of_elaboratePair {x : SExpr L} {b : TypedBinder}
    (h : elaboratePair place x = some b) (hx : x.Lexical) : IsName b.name := by
  obtain ⟨label, y, z, name, type, rfl, hname, -, rfl⟩ := elaboratePair_eq_some h
  exact isName_of_elaborateName hname (hx.of_mem (by simp))

theorem isName_of_elaboratePairs {xs : List (SExpr L)} {bs : List TypedBinder}
    (h : elaboratePairs place xs = some bs) (hxs : ∀ x ∈ xs, x.Lexical) :
    ∀ b ∈ bs, IsName b.name := by
  induction xs generalizing bs with
  | nil =>
      cases h
      intro b hb
      cases hb
  | cons x xs ih =>
      obtain ⟨b', bs', hb', hbs, rfl⟩ := elaboratePairs_cons_eq_some h
      intro b hb
      rcases List.mem_cons.mp hb with rfl | hb
      · exact isName_of_elaboratePair hb' (hxs x (by simp))
      · exact ih hbs (fun y hy => hxs y (by simp [hy])) b hb

/-! ## Expressions -/

/-- What an S-expression stands for is a proper node. -/
theorem proper_of_elaborate {x : SExpr L} {e : Expr} (h : elaborate place x = some e)
    (hx : x.Lexical) : e.value.Proper := by
  cases x with
  | word label name =>
      obtain ⟨node, hnode, rfl⟩ := elaborate_word_eq_some h
      rcases elaborateWord_eq_some hnode with ⟨c, -, rfl⟩ | ⟨hfree, rfl⟩
      · trivial
      · exact ⟨hx _ (SExpr.mem_within_self _), hfree⟩
  | quoted label name =>
      cases h
      exact hx _ (SExpr.mem_within_self _)
  | numeral label run =>
      obtain ⟨value, -, rfl⟩ := elaborate_numeral_eq_some h
      trivial
  | list label items =>
      rw [elaborate] at h
      obtain ⟨node, hnode, rfl⟩ := Option.map_eq_some_iff.mp h
      obtain ⟨y, ys, rfl, hmeaning⟩ := elaborateList_eq_some hnode
      cases hmeaning with
      | form hhead hargs => trivial
      | @lambda names body bs e hhead hbinders hne hbody =>
          obtain ⟨label', words, rfl, hwords⟩ := elaborateBinders_eq_some hbinders
          have hnames : (SExpr.list label' words).Lexical := hx.of_mem (by simp)
          exact ⟨hne, isName_of_elaborateNames hwords fun z hz => hnames.of_mem hz⟩
      | @quantifier q pairs body bs e hhead hbinders hne hbody =>
          obtain ⟨label', ps, rfl, hps⟩ := elaborateTypedBinders_eq_some hbinders
          have hpairs : (SExpr.list label' ps).Lexical := hx.of_mem (by simp)
          exact ⟨hne, isName_of_elaboratePairs hps fun z hz => hpairs.of_mem hz⟩
      | arrow hhead hparts hne => exact hne
      | application hhead he hargs hne => exact hne

/-! ## What stands in a text -/

variable {source : String} {c d m : Cursor}

theorem SExpr.StandsBy.isToken {x : SExpr Location} (h : x.Stands source c m) : x.IsToken := by
  cases x with
  | word loc name => exact IsWord.of_wordPrefix h.1
  | quoted loc name =>
      obtain ⟨r, -, hname, -⟩ := h
      exact IsWord.of_wordPrefix hname
  | numeral loc run =>
      obtain ⟨r, -, hne, hall, -⟩ := digitPrefix_eq_some_iff.mp h.1
      exact ⟨hne, hall⟩
  | list loc items => trivial

theorem SExpr.StandsBy.lexical {x : SExpr Location} (h : x.Stands source c m) : x.Lexical := by
  intro y hy
  obtain ⟨c', m', -, hstands, -⟩ := h.within hy
  exact hstands.isToken

theorem wellFormed_of_stands {x : SExpr Location} {t : TopLevel} (h : x.Stands source c m)
    (hmean : elaborateTopLevel id x = some t) : t.WellFormed := by
  constructor
  · rcases elaborateTopLevel_eq_some hmean with
      ⟨label, l, name, command, items, statement, rfl, -, hmeaning, rfl⟩ | ⟨e, -, -, rfl⟩
    · cases hmeaning with
      | claim hname htype => exact isName_of_elaborateName hname (h.lexical.of_mem (by simp))
      | define hname hvalue => exact isName_of_elaborateName hname (h.lexical.of_mem (by simp))
      | checkSame htype hleft hright => trivial
    · trivial
  · intro e he
    obtain ⟨y, hy, hmean'⟩ := exists_within_of_mem_topLevel hmean he
    exact proper_of_elaborate hmean' fun z hz => h.lexical z (x.within_subset hy hz)

/-- What is returned for a program is well formed. -/
theorem wellFormed_of_parseSource {s : Text} {ts : List TopLevel}
    (h : parseSource source s ceiling = .ok ts) : ∀ t ∈ ts, t.WellFormed := by
  intro t ht
  obtain ⟨xs, c₁, d, r, -, -, hxs, hmean, -⟩ := stands_of_parseSource h
  obtain ⟨x, hx, hmean'⟩ := exists_of_mem_program hmean ht
  obtain ⟨c', m', -, hstands, -⟩ := hxs.mem hx
  exact wellFormed_of_stands hstands hmean'

end PieSyntax
