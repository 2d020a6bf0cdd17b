import PieSyntax.Proofs.Elaborate

/-!
# What elaboration makes of a list

A list that elaborates does so in one of five ways, by its head.  Each way fixes how many items the
list has and which of them are expressions.

## Main results

* `elaborateList_eq_some` — the five ways.
* `head?_eq_none_of_elaborate`, `asCommand?_eq_none_of_elaborate` — no keyword that heads a list is an
  expression, and no list that a command heads.
* `elaborateTopLevel_eq_some` — a top-level form is a command or an example.
-/

namespace PieSyntax

theorem Arguments.toList_of_ofList {n : Nat} {es : List Expr} {args : Arguments n}
    (h : Arguments.ofList n es = some args) : args.toList = es := by
  induction n generalizing es with
  | zero =>
      cases es with
      | nil =>
          cases h
          rfl
      | cons e es => cases h
  | succ n ih =>
      cases es with
      | nil => cases h
      | cons e es =>
          rw [Arguments.ofList] at h
          obtain ⟨rest, hrest, rfl⟩ := Option.map_eq_some_iff.mp h
          rw [toList, ih hrest]

theorem Arguments.exists_ofList {m : Nat} {es : List Expr} (h : es.length = m) :
    ∃ args, Arguments.ofList m es = some args := by
  induction m generalizing es with
  | zero => exact ⟨.nil, by rw [List.eq_nil_of_length_eq_zero h]; rfl⟩
  | succ m ih =>
      cases es with
      | nil => cases h
      | cons e es =>
          obtain ⟨args, hargs⟩ := ih (Nat.succ.inj h)
          exact ⟨.cons e args, by rw [Arguments.ofList, hargs]; rfl⟩

/-! ## Keywords -/

theorem mem_of_lookup {β : Type} {table : List (Text × β)} {name : Text} {entry : β}
    (h : table.lookup name = some entry) : (name, entry) ∈ table := by
  obtain ⟨before, after, rfl, -⟩ := List.lookup_eq_some_iff.mp h
  simp

/-- A reserved word is no name. -/
theorem lookup_eq_none_of_isFreeName {name : Text} (h : Grammar.isFreeName name = true) :
    constantTable.lookup name = none ∧ headTable.lookup name = none ∧
      commandTable.lookup name = none := by
  have hmem : name ∉ reserved := by
    simpa [Grammar.isFreeName] using h
  have hnone : ∀ {β : Type} (table : List (Text × β)), name ∉ table.map (·.1) →
      table.lookup name = none := by
    intro β table hnot
    rw [List.lookup_eq_none_iff]
    intro p hp
    rw [bne_iff_ne]
    intro he
    exact hnot (List.mem_map.mpr ⟨p, hp, he.symm⟩)
  simp only [reserved, List.mem_append, not_or] at hmem
  exact ⟨hnone _ hmem.1.1, hnone _ hmem.1.2, hnone _ hmem.2⟩

variable {L : Type} {place : L → Location}

/-! ## Words and numerals -/

/-- A word that stands alone is a constant or a name. -/
theorem elaborateWord_eq_some {name : Text} {node : Node} (h : elaborateWord name = some node) :
    (∃ c, constantTable.lookup name = some c ∧ node = .constant c) ∨
      (Grammar.isFreeName name = true ∧ node = .var name) := by
  rw [elaborateWord] at h
  cases hlookup : constantTable.lookup name with
  | some c =>
      rw [hlookup] at h
      cases h
      exact Or.inl ⟨c, rfl, rfl⟩
  | none =>
      rw [hlookup] at h
      by_cases hfree : Grammar.isFreeName name = true
      · rw [if_pos hfree] at h
        cases h
        exact Or.inr ⟨hfree, rfl⟩
      · rw [if_neg hfree] at h
        cases h

theorem elaborate_word_eq_some {label : L} {name : Text} {e : Expr}
    (h : elaborate place (.word label name) = some e) :
    ∃ node, elaborateWord name = some node ∧ e = ⟨place label, node⟩ := by
  rw [elaborate] at h
  obtain ⟨node, hnode, rfl⟩ := Option.map_eq_some_iff.mp h
  exact ⟨node, hnode, rfl⟩

theorem elaborate_numeral_eq_some {label : L} {run : Text} {e : Expr}
    (h : elaborate place (.numeral label run) = some e) :
    ∃ value, readNumeral run = .ok value ∧ e = ⟨place label, .natLit value⟩ := by
  rw [elaborate] at h
  cases hvalue : readNumeral run with
  | ok value =>
      rw [hvalue] at h
      cases h
      exact ⟨value, rfl, rfl⟩
  | error tooLong =>
      rw [hvalue] at h
      cases h

/-- What may be bound is a word. -/
theorem elaborateName_eq_some {x : SExpr L} {name : Located Text}
    (h : elaborateName place x = some name) : ∃ label word,
      x = .word label word ∧ Grammar.isFreeName word = true ∧ name = ⟨place label, word⟩ := by
  cases x with
  | word label word =>
      rw [elaborateName] at h
      by_cases hfree : Grammar.isFreeName word = true
      · rw [if_pos hfree] at h
        cases h
        exact ⟨label, word, rfl, hfree, rfl⟩
      · rw [if_neg hfree] at h
        cases h
  | quoted label word => cases h
  | numeral label run => cases h
  | list label items => cases h

/-- No keyword that heads a list is an expression. -/
theorem head?_eq_none_of_elaborate {x : SExpr L} {e : Expr}
    (h : elaborate place x = some e) : x.head? = none ∧ x.command? = none := by
  have hconstants : ∀ p ∈ constantTable,
      headTable.lookup p.1 = none ∧ commandTable.lookup p.1 = none := by decide
  cases x with
  | word label name =>
      obtain ⟨node, hnode, -⟩ := elaborate_word_eq_some h
      rcases elaborateWord_eq_some hnode with ⟨c, hlookup, -⟩ | ⟨hfree, -⟩
      · exact hconstants _ (mem_of_lookup hlookup)
      · exact (lookup_eq_none_of_isFreeName hfree).2
  | quoted label name => exact ⟨rfl, rfl⟩
  | numeral label run => exact ⟨rfl, rfl⟩
  | list label items => exact ⟨rfl, rfl⟩

/-! ## Lists -/

/-- Names that are bound are listed between parentheses. -/
theorem elaborateBinders_eq_some {x : SExpr L} {bs : List Binder}
    (h : elaborateBinders place x = some bs) :
    ∃ label items, x = .list label items ∧ elaborateNames place items = some bs := by
  cases x with
  | word label name => cases h
  | quoted label name => cases h
  | numeral label run => cases h
  | list label items => exact ⟨label, items, rfl, h⟩

theorem elaborateTypedBinders_eq_some {x : SExpr L} {bs : List TypedBinder}
    (h : elaborateTypedBinders place x = some bs) :
    ∃ label pairs, x = .list label pairs ∧ elaboratePairs place pairs = some bs := by
  cases x with
  | word label name => cases h
  | quoted label name => cases h
  | numeral label run => cases h
  | list label pairs => exact ⟨label, pairs, rfl, h⟩

/-- A name with its type is a list of the two. -/
theorem elaboratePair_eq_some {x : SExpr L} {b : TypedBinder}
    (h : elaboratePair place x = some b) : ∃ label y z name type, x = .list label [y, z] ∧
      elaborateName place y = some name ∧ elaborate place z = some type ∧
        b = .mk name.loc name.value type := by
  match x with
  | .word _ _ => cases h
  | .quoted _ _ => cases h
  | .numeral _ _ => cases h
  | .list _ [] => cases h
  | .list _ [_] => cases h
  | .list _ (_ :: _ :: _ :: _) => cases h
  | .list label [y, z] =>
      rw [elaboratePair] at h
      obtain ⟨name, hname, h⟩ := Option.bind_eq_some_iff.mp h
      obtain ⟨type, htype, rfl⟩ := Option.map_eq_some_iff.mp h
      exact ⟨label, y, z, name, type, rfl, hname, htype, rfl⟩

theorem elaborateNames_cons_eq_some {x : SExpr L} {xs : List (SExpr L)} {bs : List Binder}
    (h : elaborateNames place (x :: xs) = some bs) :
    ∃ name bs', elaborateName place x = some name ∧ elaborateNames place xs = some bs' ∧
      bs = ⟨name.loc, name.value⟩ :: bs' := by
  rw [elaborateNames] at h
  obtain ⟨name, hname, h⟩ := Option.bind_eq_some_iff.mp h
  obtain ⟨bs', hbs, rfl⟩ := Option.map_eq_some_iff.mp h
  exact ⟨name, bs', hname, hbs, rfl⟩

theorem elaboratePairs_cons_eq_some {x : SExpr L} {xs : List (SExpr L)} {bs : List TypedBinder}
    (h : elaboratePairs place (x :: xs) = some bs) :
    ∃ b bs', elaboratePair place x = some b ∧ elaboratePairs place xs = some bs' ∧
      bs = b :: bs' := by
  rw [elaboratePairs] at h
  obtain ⟨b, hb, h⟩ := Option.bind_eq_some_iff.mp h
  obtain ⟨bs', hbs, rfl⟩ := Option.map_eq_some_iff.mp h
  exact ⟨b, bs', hb, hbs, rfl⟩

theorem elaborateAll_cons_eq_some {x : SExpr L} {xs : List (SExpr L)} {es : List Expr}
    (h : elaborateAll place (x :: xs) = some es) :
    ∃ e es', elaborate place x = some e ∧ elaborateAll place xs = some es' ∧ es = e :: es' := by
  rw [elaborateAll] at h
  obtain ⟨e, he, h⟩ := Option.bind_eq_some_iff.mp h
  obtain ⟨es', hes, rfl⟩ := Option.map_eq_some_iff.mp h
  exact ⟨e, es', he, hes, rfl⟩

theorem elaborateAll_eq_nil {xs : List (SExpr L)} (h : elaborateAll place xs = some []) :
    xs = [] := by
  cases xs with
  | nil => rfl
  | cons x xs =>
      obtain ⟨e, es, -, -, heq⟩ := elaborateAll_cons_eq_some h
      cases heq

theorem elaborateAll_eq_cons {xs : List (SExpr L)} {e : Expr} {es : List Expr}
    (h : elaborateAll place xs = some (e :: es)) :
    ∃ y ys, xs = y :: ys ∧ elaborate place y = some e ∧ elaborateAll place ys = some es := by
  cases xs with
  | nil => cases h
  | cons x xs =>
      obtain ⟨e', es', he, hes, heq⟩ := elaborateAll_cons_eq_some h
      cases heq
      exact ⟨x, xs, rfl, he, hes⟩

/-- A list with the head `x` and the given further items means the node. -/
inductive ListMeaning (place : L → Location) (x : SExpr L) : List (SExpr L) → Node → Prop where
  | form {f : Form} {items : List (SExpr L)} {args : Arguments f.arity}
    (hhead : x.head? = some (.form f)) (hargs : elaborateAll place items = some args.toList) :
    ListMeaning place x items (.form f args)
  | lambda {names body : SExpr L} {bs : List Binder} {e : Expr} (hhead : x.head? = some .lambda)
    (hbinders : elaborateBinders place names = some bs) (hne : bs ≠ [])
    (hbody : elaborate place body = some e) : ListMeaning place x [names, body] (.lambda bs e)
  | quantifier {q : Quantifier} {pairs body : SExpr L} {bs : List TypedBinder} {e : Expr}
    (hhead : x.head? = some (.quantifier q))
    (hbinders : elaborateTypedBinders place pairs = some bs) (hne : bs ≠ [])
    (hbody : elaborate place body = some e) :
    ListMeaning place x [pairs, body] (.quantified q bs e)
  | arrow {items : List (SExpr L)} {e : Expr} {es : List Expr} (hhead : x.head? = some .arrow)
    (hparts : elaborateAll place items = some (e :: es)) (hne : es ≠ []) :
    ListMeaning place x items (.arrow e es)
  | application {items : List (SExpr L)} {e : Expr} {es : List Expr} (hhead : x.head? = none)
    (he : elaborate place x = some e) (hargs : elaborateAll place items = some es) (hne : es ≠ []) :
    ListMeaning place x items (.app e es)

theorem elaborateList_eq_some {xs : List (SExpr L)} {node : Node}
    (h : elaborateList place xs = some node) :
    ∃ x items, xs = x :: items ∧ ListMeaning place x items node := by
  cases xs with
  | nil => cases h
  | cons x items =>
      refine ⟨x, items, rfl, ?_⟩
      cases hhead : x.head? with
      | none =>
          rw [elaborateList_application place hhead] at h
          obtain ⟨e, he, h⟩ := Option.bind_eq_some_iff.mp h
          obtain ⟨es, hes, h⟩ := Option.bind_eq_some_iff.mp h
          cases es with
          | nil => cases h
          | cons e' es =>
              cases h
              exact .application hhead he hes (List.cons_ne_nil _ _)
      | some head =>
          cases head with
          | form f =>
              rw [elaborateList_form place hhead] at h
              obtain ⟨es, hes, h⟩ := Option.bind_eq_some_iff.mp h
              obtain ⟨args, hargs, rfl⟩ := Option.map_eq_some_iff.mp h
              exact .form hhead (Arguments.toList_of_ofList hargs ▸ hes)
          | arrow =>
              rw [elaborateList_arrow place hhead] at h
              obtain ⟨es, hes, h⟩ := Option.bind_eq_some_iff.mp h
              match es with
              | [] => cases h
              | [_] => cases h
              | e :: e' :: es =>
                  cases h
                  exact .arrow hhead hes (List.cons_ne_nil _ _)
          | lambda =>
              match items with
              | [] => rw [elaborateList.eq_def] at h; simp [hhead] at h
              | [_] => rw [elaborateList.eq_def] at h; simp [hhead] at h
              | _ :: _ :: _ :: _ => rw [elaborateList.eq_def] at h; simp [hhead] at h
              | [names, body] =>
                  rw [elaborateList_lambda place hhead] at h
                  obtain ⟨bs, hbs, h⟩ := Option.bind_eq_some_iff.mp h
                  obtain ⟨e, he, h⟩ := Option.bind_eq_some_iff.mp h
                  cases bs with
                  | nil => cases h
                  | cons b bs =>
                      cases h
                      exact .lambda hhead hbs (List.cons_ne_nil _ _) he
          | quantifier q =>
              match items with
              | [] => rw [elaborateList.eq_def] at h; simp [hhead] at h
              | [_] => rw [elaborateList.eq_def] at h; simp [hhead] at h
              | _ :: _ :: _ :: _ => rw [elaborateList.eq_def] at h; simp [hhead] at h
              | [pairs, body] =>
                  rw [elaborateList_quantifier place hhead] at h
                  obtain ⟨bs, hbs, h⟩ := Option.bind_eq_some_iff.mp h
                  obtain ⟨e, he, h⟩ := Option.bind_eq_some_iff.mp h
                  cases bs with
                  | nil => cases h
                  | cons b bs =>
                      cases h
                      exact .quantifier hhead hbs (List.cons_ne_nil _ _) he

/-! ## Commands -/

/-- The items after a command make the statement. -/
inductive CommandMeaning (place : L → Location) : Command → List (SExpr L) → Statement → Prop where
  | claim {x y : SExpr L} {name : Located Text} {type : Expr}
    (hname : elaborateName place x = some name) (htype : elaborate place y = some type) :
    CommandMeaning place .claim [x, y] (.claim name type)
  | define {x y : SExpr L} {name : Located Text} {value : Expr}
    (hname : elaborateName place x = some name) (hvalue : elaborate place y = some value) :
    CommandMeaning place .define [x, y] (.define name value)
  | checkSame {x y z : SExpr L} {type left right : Expr} (htype : elaborate place x = some type)
    (hleft : elaborate place y = some left) (hright : elaborate place z = some right) :
    CommandMeaning place .checkSame [x, y, z] (.checkSame type left right)

theorem elaborateCommand_eq_some {c : Command} {items : List (SExpr L)} {statement : Statement}
    (h : elaborateCommand place c items = some statement) :
    CommandMeaning place c items statement := by
  cases c with
  | claim =>
      match items with
      | [] => cases h
      | [_] => cases h
      | _ :: _ :: _ :: _ => cases h
      | [x, y] =>
          obtain ⟨name, hname, h⟩ := Option.bind_eq_some_iff.mp h
          obtain ⟨type, htype, rfl⟩ := Option.map_eq_some_iff.mp h
          exact .claim hname htype
  | define =>
      match items with
      | [] => cases h
      | [_] => cases h
      | _ :: _ :: _ :: _ => cases h
      | [x, y] =>
          obtain ⟨name, hname, h⟩ := Option.bind_eq_some_iff.mp h
          obtain ⟨value, hvalue, rfl⟩ := Option.map_eq_some_iff.mp h
          exact .define hname hvalue
  | checkSame =>
      match items with
      | [] => cases h
      | [_] => cases h
      | [_, _] => cases h
      | _ :: _ :: _ :: _ :: _ => cases h
      | [x, y, z] =>
          obtain ⟨type, htype, h⟩ := Option.bind_eq_some_iff.mp h
          obtain ⟨left, hleft, h⟩ := Option.bind_eq_some_iff.mp h
          obtain ⟨right, hright, rfl⟩ := Option.map_eq_some_iff.mp h
          exact .checkSame htype hleft hright

theorem SExpr.asCommand?_eq_some {x : SExpr L} {label : L} {c : Command} {items : List (SExpr L)}
    (h : x.asCommand? = some (label, c, items)) :
    ∃ l name, x = .list label (.word l name :: items) ∧ commandTable.lookup name = some c := by
  match x with
  | .word _ _ => cases h
  | .quoted _ _ => cases h
  | .numeral _ _ => cases h
  | .list _ [] => cases h
  | .list _ (.quoted _ _ :: _) => cases h
  | .list _ (.numeral _ _ :: _) => cases h
  | .list _ (.list _ _ :: _) => cases h
  | .list label' (.word l name :: ys) =>
      rw [SExpr.asCommand?] at h
      obtain ⟨c', hlookup, hfound⟩ := Option.map_eq_some_iff.mp h
      cases hfound
      exact ⟨l, name, rfl, hlookup⟩

/-- No expression is headed by a command. -/
theorem asCommand?_eq_none_of_elaborate {x : SExpr L} {e : Expr}
    (h : elaborate place x = some e) : x.asCommand? = none := by
  have hkeys : ∀ p ∈ commandTable, headTable.lookup p.1 = none := by decide
  match x with
  | .word label name => rfl
  | .quoted label name => rfl
  | .numeral label run => rfl
  | .list label [] => rfl
  | .list label (y :: items) =>
      rw [elaborate] at h
      obtain ⟨node, hnode, -⟩ := Option.map_eq_some_iff.mp h
      have hcommand : y.command? = none := by
        cases hc : y.command? with
        | none => rfl
        | some command =>
            cases y with
            | word label' name =>
                have hhead : (SExpr.word label' name).head? = none := hkeys _ (mem_of_lookup hc)
                rw [elaborateList_application place hhead] at hnode
                obtain ⟨e', he', -⟩ := Option.bind_eq_some_iff.mp hnode
                exact (hc.symm.trans (head?_eq_none_of_elaborate he').2)
            | quoted label' name => cases hc
            | numeral label' run => cases hc
            | list label' items' => cases hc
      rw [SExpr.asCommand?, hcommand, Option.map_none]

/-- A top-level form is made by a command, or it is an example. -/
theorem elaborateTopLevel_eq_some {x : SExpr L} {t : TopLevel}
    (h : elaborateTopLevel place x = some t) :
    (∃ label l name c items statement, x = .list label (.word l name :: items) ∧
      commandTable.lookup name = some c ∧ CommandMeaning place c items statement ∧
        t = ⟨place label, statement⟩) ∨
    ∃ e, x.asCommand? = none ∧ elaborate place x = some e ∧ t = ⟨e.loc, .expr e⟩ := by
  rw [elaborateTopLevel] at h
  cases hcommand : x.asCommand? with
  | none =>
      rw [hcommand] at h
      obtain ⟨e, he, rfl⟩ := Option.map_eq_some_iff.mp h
      exact Or.inr ⟨e, rfl, he, rfl⟩
  | some found =>
      obtain ⟨label, c, items⟩ := found
      rw [hcommand] at h
      obtain ⟨statement, hstatement, rfl⟩ := Option.map_eq_some_iff.mp h
      obtain ⟨l, name, rfl, hlookup⟩ := SExpr.asCommand?_eq_some hcommand
      exact Or.inl ⟨label, l, name, c, items, statement, rfl, hlookup,
        elaborateCommand_eq_some hstatement, rfl⟩

end PieSyntax
