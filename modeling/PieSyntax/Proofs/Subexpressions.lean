import PieSyntax.Proofs.Meaning
import PieSyntax.Proofs.Stands

/-!
# Expressions within expressions

`subexpressions e` lists the expression `e` and all expressions within it.  When `e` is what an
S-expression stands for, every one of them is what some S-expression within that one stands for.
Whatever is within an S-expression that stands in a text stands there itself, and not outside of it.

## Main results

* `exists_within_of_mem_subexpressions`, `exists_within_of_mem_program` — the S-expression of an
  expression within an expression, and within a program.
* `SExpr.StandsBy.within`, `SExpr.StandAllBy.mem` — the place of a part.
-/

namespace PieSyntax

mutual

/-- The expression and the expressions within it. -/
def subexpressions : Located Node → List Expr
  | ⟨loc, node⟩ => ⟨loc, node⟩ :: node.subexpressions

/-- The expressions within a node. -/
def Node.subexpressions : Node → List Expr
  | .var _ => []
  | .tick _ => []
  | .natLit _ => []
  | .constant _ => []
  | .form _ args => args.subexpressions
  | .lambda _ body => subexpressions body
  | .quantified _ bs body => typedBindersSubexpressions bs ++ subexpressions body
  | .arrow arg rest => subexpressions arg ++ allSubexpressions rest
  | .app head args => subexpressions head ++ allSubexpressions args

/-- The expressions within several, and these themselves. -/
def allSubexpressions : List (Located Node) → List Expr
  | [] => []
  | e :: es => subexpressions e ++ allSubexpressions es

/-- The expressions within the arguments of a form, and these themselves. -/
def Arguments.subexpressions {n : Nat} : Arguments n → List Expr
  | .nil => []
  | .cons first rest => PieSyntax.subexpressions first ++ rest.subexpressions

/-- The type of a bound name and the expressions within it. -/
def TypedBinder.subexpressions : TypedBinder → List Expr
  | .mk _ _ type => PieSyntax.subexpressions type

/-- The types of bound names and the expressions within them. -/
def typedBindersSubexpressions : List TypedBinder → List Expr
  | [] => []
  | b :: bs => b.subexpressions ++ typedBindersSubexpressions bs

end

theorem subexpressions_eq (e : Expr) : subexpressions e = e :: e.value.subexpressions := by
  cases e with
  | mk loc node => rw [subexpressions]

theorem Arguments.subexpressions_eq {n : Nat} (args : Arguments n) :
    args.subexpressions = allSubexpressions args.toList := by
  induction n with
  | zero =>
      cases args with
      | nil => rfl
  | succ n ih =>
      cases args with
      | cons first rest => rw [Arguments.subexpressions, toList, allSubexpressions, ih]

/-- The expressions within a statement. -/
def Statement.subexpressions : Statement → List Expr
  | .claim _ type => PieSyntax.subexpressions type
  | .define _ value => PieSyntax.subexpressions value
  | .checkSame type left right =>
      PieSyntax.subexpressions type ++
        (PieSyntax.subexpressions left ++ PieSyntax.subexpressions right)
  | .expr e => PieSyntax.subexpressions e

/-- The expressions within a top-level form. -/
def TopLevel.subexpressions (t : TopLevel) : List Expr := t.value.subexpressions

/-! ## S-expressions within S-expressions -/

variable {L : Type}

mutual

/-- The S-expression and the S-expressions within it. -/
def SExpr.within : SExpr L → List (SExpr L)
  | .word label name => [.word label name]
  | .quoted label name => [.quoted label name]
  | .numeral label run => [.numeral label run]
  | .list label items => .list label items :: SExpr.allWithin items

/-- The S-expressions within several, and these themselves. -/
def SExpr.allWithin : List (SExpr L) → List (SExpr L)
  | [] => []
  | x :: xs => x.within ++ SExpr.allWithin xs

end

theorem SExpr.mem_within_self (x : SExpr L) : x ∈ x.within := by
  cases x with
  | word label name => exact List.mem_cons_self
  | quoted label name => exact List.mem_cons_self
  | numeral label run => exact List.mem_cons_self
  | list label items =>
      rw [within]
      exact List.mem_cons_self

theorem SExpr.mem_allWithin {xs : List (SExpr L)} {y : SExpr L} :
    y ∈ SExpr.allWithin xs ↔ ∃ x ∈ xs, y ∈ x.within := by
  induction xs with
  | nil => simp [allWithin]
  | cons x xs ih => simp [allWithin, ih]

theorem SExpr.within_subset_allWithin {x : SExpr L} {xs : List (SExpr L)} (h : x ∈ xs) :
    x.within ⊆ SExpr.allWithin xs :=
  fun _ hy => mem_allWithin.mpr ⟨x, h, hy⟩

mutual

theorem SExpr.within_subset (x : SExpr L) {y : SExpr L} (h : y ∈ x.within) :
    y.within ⊆ x.within := by
  match x with
  | .word label name =>
      obtain rfl := List.mem_singleton.mp h
      exact fun _ hz => hz
  | .quoted label name =>
      obtain rfl := List.mem_singleton.mp h
      exact fun _ hz => hz
  | .numeral label run =>
      obtain rfl := List.mem_singleton.mp h
      exact fun _ hz => hz
  | .list label items =>
      rw [within] at h
      rcases List.mem_cons.mp h with rfl | h
      · exact fun _ hz => hz
      · rw [within]
        exact List.Subset.trans (SExpr.allWithin_subset items h) (List.subset_cons_self _ _)

theorem SExpr.allWithin_subset (xs : List (SExpr L)) {y : SExpr L} (h : y ∈ SExpr.allWithin xs) :
    y.within ⊆ SExpr.allWithin xs := by
  match xs with
  | [] => cases h
  | x :: xs =>
      rw [allWithin] at h ⊢
      rcases List.mem_append.mp h with h | h
      · exact List.Subset.trans (SExpr.within_subset x h) (List.subset_append_left _ _)
      · exact List.Subset.trans (SExpr.allWithin_subset xs h) (List.subset_append_right _ _)

end

/-! ## The S-expression of an expression -/

variable {place : L → Location}

/-- An expression is what some S-expression in the list stands for. -/
def StoodFor (place : L → Location) (xs : List (SExpr L)) (e : Expr) : Prop :=
  ∃ x ∈ xs, elaborate place x = some e

theorem StoodFor.mono {xs ys : List (SExpr L)} {e : Expr} (h : StoodFor place xs e)
    (hsub : xs ⊆ ys) : StoodFor place ys e := by
  obtain ⟨x, hx, he⟩ := h
  exact ⟨x, hsub hx, he⟩

/-- A word, a quoted word or a numeral has no parts. -/
theorem elaborateWord_subexpressions {name : Text} {node : Node}
    (h : elaborateWord name = some node) : node.subexpressions = [] := by
  rcases elaborateWord_eq_some h with ⟨c, -, rfl⟩ | ⟨-, rfl⟩ <;> rfl

mutual

theorem exists_within_of_mem_subexpressions (x : SExpr L) {e e' : Expr}
    (h : elaborate place x = some e) (he : e' ∈ subexpressions e) :
    StoodFor place x.within e' := by
  rw [subexpressions_eq] at he
  rcases List.mem_cons.mp he with rfl | he
  · exact ⟨x, x.mem_within_self, h⟩
  · match x with
    | .word label name =>
        obtain ⟨node, hnode, rfl⟩ := elaborate_word_eq_some h
        rw [elaborateWord_subexpressions hnode] at he
        cases he
    | .quoted label name =>
        cases h
        cases he
    | .numeral label run =>
        obtain ⟨value, -, rfl⟩ := elaborate_numeral_eq_some h
        cases he
    | .list label items =>
        rw [elaborate] at h
        obtain ⟨node, hnode, rfl⟩ := Option.map_eq_some_iff.mp h
        refine (exists_within_of_elaborateList items hnode he).mono ?_
        rw [SExpr.within]
        exact List.subset_cons_self _ _

theorem exists_within_of_elaborateList (xs : List (SExpr L)) {node : Node} {e' : Expr}
    (h : elaborateList place xs = some node) (he : e' ∈ node.subexpressions) :
    StoodFor place (SExpr.allWithin xs) e' := by
  match xs with
  | [] => cases h
  | x :: items =>
      obtain ⟨x', items', heq, hmeaning⟩ := elaborateList_eq_some h
      cases heq
      rw [SExpr.allWithin]
      cases hmeaning with
      | form hhead hargs =>
          rw [Node.subexpressions, Arguments.subexpressions_eq] at he
          exact (exists_within_of_elaborateAll items hargs he).mono (List.subset_append_right _ _)
      | @lambda names body bs e hhead hbinders hne hbody =>
          refine (exists_within_of_mem_subexpressions body hbody he).mono ?_
          exact List.Subset.trans (SExpr.within_subset_allWithin (by simp))
            (List.subset_append_right _ _)
      | @quantifier q pairs body bs e hhead hbinders hne hbody =>
          rw [Node.subexpressions] at he
          rcases List.mem_append.mp he with he | he
          · refine (exists_within_of_elaborateTypedBinders pairs hbinders he).mono ?_
            exact List.Subset.trans (SExpr.within_subset_allWithin (by simp))
              (List.subset_append_right _ _)
          · refine (exists_within_of_mem_subexpressions body hbody he).mono ?_
            exact List.Subset.trans (SExpr.within_subset_allWithin (by simp))
              (List.subset_append_right _ _)
      | arrow hhead hparts hne =>
          exact (exists_within_of_elaborateAll items hparts he).mono (List.subset_append_right _ _)
      | application hhead hx hargs hne =>
          rw [Node.subexpressions] at he
          rcases List.mem_append.mp he with he | he
          · exact (exists_within_of_mem_subexpressions x hx he).mono (List.subset_append_left _ _)
          · exact (exists_within_of_elaborateAll items hargs he).mono
              (List.subset_append_right _ _)

theorem exists_within_of_elaborateAll (xs : List (SExpr L)) {es : List Expr} {e' : Expr}
    (h : elaborateAll place xs = some es) (he : e' ∈ allSubexpressions es) :
    StoodFor place (SExpr.allWithin xs) e' := by
  match xs with
  | [] =>
      cases h
      cases he
  | x :: xs =>
      obtain ⟨e, es', hx, hxs, rfl⟩ := elaborateAll_cons_eq_some h
      rw [allSubexpressions] at he
      rw [SExpr.allWithin]
      rcases List.mem_append.mp he with he | he
      · exact (exists_within_of_mem_subexpressions x hx he).mono (List.subset_append_left _ _)
      · exact (exists_within_of_elaborateAll xs hxs he).mono (List.subset_append_right _ _)

theorem exists_within_of_elaborateTypedBinders (x : SExpr L) {bs : List TypedBinder} {e' : Expr}
    (h : elaborateTypedBinders place x = some bs) (he : e' ∈ typedBindersSubexpressions bs) :
    StoodFor place x.within e' := by
  match x with
  | .word _ _ => cases h
  | .quoted _ _ => cases h
  | .numeral _ _ => cases h
  | .list label pairs =>
      rw [SExpr.within]
      exact (exists_within_of_elaboratePairs pairs h he).mono (List.subset_cons_self _ _)

theorem exists_within_of_elaboratePairs (xs : List (SExpr L)) {bs : List TypedBinder} {e' : Expr}
    (h : elaboratePairs place xs = some bs) (he : e' ∈ typedBindersSubexpressions bs) :
    StoodFor place (SExpr.allWithin xs) e' := by
  match xs with
  | [] =>
      cases h
      cases he
  | x :: xs =>
      obtain ⟨b, bs', hx, hxs, rfl⟩ := elaboratePairs_cons_eq_some h
      rw [typedBindersSubexpressions] at he
      rw [SExpr.allWithin]
      rcases List.mem_append.mp he with he | he
      · exact (exists_within_of_elaboratePair x hx he).mono (List.subset_append_left _ _)
      · exact (exists_within_of_elaboratePairs xs hxs he).mono (List.subset_append_right _ _)

theorem exists_within_of_elaboratePair (x : SExpr L) {b : TypedBinder} {e' : Expr}
    (h : elaboratePair place x = some b) (he : e' ∈ b.subexpressions) :
    StoodFor place x.within e' := by
  match x with
  | .word _ _ => cases h
  | .quoted _ _ => cases h
  | .numeral _ _ => cases h
  | .list _ [] => cases h
  | .list _ [_] => cases h
  | .list _ (_ :: _ :: _ :: _) => cases h
  | .list label [name, type] =>
      rw [elaboratePair] at h
      obtain ⟨x, -, h⟩ := Option.bind_eq_some_iff.mp h
      obtain ⟨e, htype, rfl⟩ := Option.map_eq_some_iff.mp h
      rw [TypedBinder.subexpressions] at he
      refine (exists_within_of_mem_subexpressions type htype he).mono ?_
      rw [SExpr.within]
      exact List.Subset.trans (SExpr.within_subset_allWithin (by simp)) (List.subset_cons_self _ _)

end

theorem exists_within_of_mem_topLevel {x : SExpr L} {t : TopLevel} {e' : Expr}
    (h : elaborateTopLevel place x = some t) (he : e' ∈ t.subexpressions) :
    StoodFor place x.within e' := by
  rcases elaborateTopLevel_eq_some h with
    ⟨label, l, name, c, items, statement, rfl, -, hmeaning, rfl⟩ | ⟨e, -, hx, rfl⟩
  · have hitem : ∀ {y : SExpr L} {e : Expr}, y ∈ items → elaborate place y = some e →
        e' ∈ subexpressions e →
          StoodFor place (SExpr.list label (.word l name :: items)).within e' := by
      intro y e hy hmean hmem
      refine (exists_within_of_mem_subexpressions y hmean hmem).mono ?_
      rw [SExpr.within]
      exact List.Subset.trans (SExpr.within_subset_allWithin (List.mem_cons_of_mem _ hy))
        (List.subset_cons_self _ _)
    cases hmeaning with
    | claim hname htype => exact hitem (by simp) htype he
    | define hname hvalue => exact hitem (by simp) hvalue he
    | checkSame htype hleft hright =>
        rcases List.mem_append.mp he with he | he
        · exact hitem (by simp) htype he
        · rcases List.mem_append.mp he with he | he
          · exact hitem (by simp) hleft he
          · exact hitem (by simp) hright he
  · exact exists_within_of_mem_subexpressions x hx he

/-- The S-expression of a form in a program. -/
theorem exists_of_mem_program {xs : List (SExpr L)} {ts : List TopLevel} {t : TopLevel}
    (h : elaborateProgram place xs = some ts) (ht : t ∈ ts) :
    ∃ x ∈ xs, elaborateTopLevel place x = some t := by
  induction xs generalizing ts with
  | nil =>
      cases h
      cases ht
  | cons x xs ih =>
      rw [elaborateProgram] at h
      obtain ⟨t', hx, h⟩ := Option.bind_eq_some_iff.mp h
      obtain ⟨ts', hxs, rfl⟩ := Option.map_eq_some_iff.mp h
      rcases List.mem_cons.mp ht with rfl | ht
      · exact ⟨x, List.mem_cons_self, hx⟩
      · obtain ⟨y, hy, hmean⟩ := ih hxs ht
        exact ⟨y, List.mem_cons_of_mem _ hy, hmean⟩

/-! ## Where parts stand -/

namespace SExpr

variable {source : String}

/-- The S-expression stands between two cursors. -/
def StandsBetween (source : String) (x : SExpr Location) (c d : Cursor) : Prop :=
  ∃ c' m, c.Reaches c' ∧ x.Stands source c' m ∧ m.Reaches d

theorem StandsBetween.mono {x : SExpr Location} {c c₁ d d₁ : Cursor}
    (h : x.StandsBetween source c₁ d₁) (hc : c.Reaches c₁) (hd : d₁.Reaches d) :
    x.StandsBetween source c d := by
  obtain ⟨c', m, hc', hx, hm⟩ := h
  exact ⟨c', m, hc.trans hc', hx, hm.trans hd⟩

theorem StandsBy.between {x : SExpr Location} {c m : Cursor} (h : x.Stands source c m) :
    x.StandsBetween source c m :=
  ⟨c, m, Cursor.Reaches.refl c, h, Cursor.Reaches.refl m⟩

/-- Each of several S-expressions stands where they do. -/
theorem StandAllBy.mem {xs : List (SExpr Location)} {x : SExpr Location} {c d : Cursor}
    (h : StandAll source xs c d) (hx : x ∈ xs) : x.StandsBetween source c d := by
  induction xs generalizing c with
  | nil => cases hx
  | cons y ys ih =>
      obtain ⟨m, c₁, hy, hgap, hys⟩ := h
      rcases List.mem_cons.mp hx with rfl | hx
      · exact hy.between.mono (Cursor.Reaches.refl c) (hgap.reaches.trans hys.reaches)
      · exact (ih hys hx).mono (hy.reaches.1.trans hgap.reaches) (Cursor.Reaches.refl d)

mutual

/-- What is within an S-expression stands where that one does. -/
theorem StandsBy.within {x y : SExpr Location} {c m : Cursor} (h : x.Stands source c m)
    (hy : y ∈ x.within) : y.StandsBetween source c m := by
  match x with
  | .word loc name =>
      obtain rfl := List.mem_singleton.mp hy
      exact h.between
  | .quoted loc name =>
      obtain rfl := List.mem_singleton.mp hy
      exact h.between
  | .numeral loc run =>
      obtain rfl := List.mem_singleton.mp hy
      exact h.between
  | .list loc items =>
      rw [SExpr.within] at hy
      rcases List.mem_cons.mp hy with rfl | hy
      · exact h.between
      · obtain ⟨c₁, d, ⟨r, hr⟩, hgap, hall, ⟨r', hr'⟩, rfl, -⟩ := h
        refine (StandAllBy.allWithin hall hy).mono ?_ ?_
        · exact (Cursor.reaches_skip (u := ['(']) (r := r) hr).trans hgap.reaches
        · exact Cursor.reaches_skip (u := [')']) (r := r') hr'

theorem StandAllBy.allWithin {xs : List (SExpr Location)} {y : SExpr Location} {c d : Cursor}
    (h : StandAll source xs c d) (hy : y ∈ SExpr.allWithin xs) : y.StandsBetween source c d := by
  match xs with
  | [] => cases hy
  | x :: xs =>
      obtain ⟨m, c₁, hx, hgap, hxs⟩ := h
      rw [SExpr.allWithin] at hy
      rcases List.mem_append.mp hy with hy | hy
      · exact (StandsBy.within hx hy).mono (Cursor.Reaches.refl c)
          (hgap.reaches.trans (StandAllBy.reaches hxs))
      · exact (StandAllBy.allWithin hxs hy).mono (hx.reaches.1.trans hgap.reaches)
          (Cursor.Reaches.refl d)

end

end SExpr

end PieSyntax
