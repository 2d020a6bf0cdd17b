import PieSyntax.Proofs.Depth
import PieSyntax.Proofs.Entry
import PieSyntax.Proofs.Parts
import PieSyntax.Proofs.Subexpressions

/-!
# What holds of every tree that is read

An expression that was read is made of parts that were read one level below it.  So a property which
each level hands on to the next holds of all expressions, and may speak of the level: that is how the
ceiling bounds the depth of a tree, and how every expression within a tree is traced to the run that
returned it.

## Main results

* `Grammar.Kept.call` — what one level hands on holds of every expression that a call returns.
* `depth_lt_of_parseSource` — the trees of a program are less deep than the ceiling.
* `exists_eval_of_mem_subexpressions` — every expression of a program was returned by a run somewhere
  in the text.
-/

namespace PieSyntax

variable {ceiling : Nat}

/-! ## Parts -/

/-- The expressions that a node is directly made of. -/
def Node.parts : Node → List Expr
  | .var _ => []
  | .tick _ => []
  | .natLit _ => []
  | .constant _ => []
  | .form _ args => args.toList
  | .lambda _ body => [body]
  | .quantified _ bs body => bs.map TypedBinder.type ++ [body]
  | .arrow arg rest => arg :: rest
  | .app head args => head :: args

/-- The expressions that a statement is directly made of. -/
def Statement.parts : Statement → List Expr
  | .claim _ type => [type]
  | .define _ value => [value]
  | .checkSame type left right => [type, left, right]
  | .expr e => [e]

theorem mem_allSubexpressions {es : List Expr} {e : Expr} :
    e ∈ allSubexpressions es ↔ ∃ e' ∈ es, e ∈ subexpressions e' := by
  induction es with
  | nil => simp [allSubexpressions]
  | cons e' es ih => simp [allSubexpressions, ih]

theorem typedBindersSubexpressions_eq (bs : List TypedBinder) :
    typedBindersSubexpressions bs = allSubexpressions (bs.map TypedBinder.type) := by
  induction bs with
  | nil => rfl
  | cons b bs ih =>
      cases b with
      | mk loc name type =>
          rw [typedBindersSubexpressions, TypedBinder.subexpressions, ih, List.map_cons,
            allSubexpressions, TypedBinder.type]

/-- What is within a node is within one of its parts. -/
theorem Node.mem_subexpressions {node : Node} {e : Expr} :
    e ∈ node.subexpressions ↔ ∃ e' ∈ node.parts, e ∈ PieSyntax.subexpressions e' := by
  rw [← mem_allSubexpressions]
  cases node with
  | var name => rfl
  | tick name => rfl
  | natLit value => rfl
  | constant c => rfl
  | form f args => rw [Node.subexpressions, Arguments.subexpressions_eq, Node.parts]
  | lambda bs body => simp [Node.subexpressions, Node.parts, allSubexpressions]
  | quantified q bs body =>
      rw [Node.subexpressions, Node.parts, typedBindersSubexpressions_eq, List.mem_append]
      simp [mem_allSubexpressions, or_and_right, exists_or]
  | arrow arg rest => rw [Node.subexpressions, Node.parts, allSubexpressions]
  | app head args => rw [Node.subexpressions, Node.parts, allSubexpressions]

theorem Statement.mem_subexpressions {statement : Statement} {e : Expr} :
    e ∈ statement.subexpressions ↔ ∃ e' ∈ statement.parts, e ∈ PieSyntax.subexpressions e' := by
  cases statement <;> simp [Statement.subexpressions, Statement.parts]

theorem exprsDepth_lt {es : List Expr} {n : Nat} (hn : 0 < n) (h : ∀ e ∈ es, exprDepth e < n) :
    exprsDepth es < n := by
  induction es with
  | nil => exact hn
  | cons e es ih =>
      have hfirst := h e List.mem_cons_self
      have hrest := ih fun e' he' => h e' (List.mem_cons_of_mem _ he')
      rw [exprsDepth]
      omega

theorem typedBindersDepth_eq (bs : List TypedBinder) :
    typedBindersDepth bs = exprsDepth (bs.map TypedBinder.type) := by
  induction bs with
  | nil => rfl
  | cons b bs ih =>
      cases b with
      | mk loc name type =>
          rw [typedBindersDepth, TypedBinder.depth, ih, List.map_cons, exprsDepth,
            TypedBinder.type]

/-- A node is one level deeper than its parts. -/
theorem Node.depth_le {node : Node} {n : Nat} (h : ∀ e ∈ node.parts, exprDepth e < n) :
    node.depth ≤ n := by
  cases node with
  | var name => exact Nat.zero_le n
  | tick name => exact Nat.zero_le n
  | natLit value => exact Nat.zero_le n
  | constant c => exact Nat.zero_le n
  | form f args =>
      rw [Node.parts] at h
      have hpos : 0 < args.toList.length := by
        rw [Arguments.length_toList]
        exact f.one_le_arity
      obtain ⟨e, es, hes⟩ := List.exists_cons_of_length_pos hpos
      have hfirst := h e (hes ▸ List.mem_cons_self)
      have hlt := exprsDepth_lt (by omega) h
      rw [Node.depth, Arguments.depth_eq]
      omega
  | lambda bs body => exact h body List.mem_cons_self
  | quantified q bs body =>
      have hbody := h body (List.mem_append_right _ List.mem_cons_self)
      have hlt := exprsDepth_lt (by omega) fun e he => h e (List.mem_append_left _ he)
      rw [Node.depth, typedBindersDepth_eq]
      omega
  | arrow arg rest =>
      have harg := h arg List.mem_cons_self
      have hlt := exprsDepth_lt (by omega) fun e he => h e (List.mem_cons_of_mem _ he)
      rw [Node.depth]
      omega
  | app head args =>
      have hhead := h head List.mem_cons_self
      have hlt := exprsDepth_lt (by omega) fun e he => h e (List.mem_cons_of_mem _ he)
      rw [Node.depth]
      omega

/-! ## One run and itself -/

/-- A run on a text, beside itself. -/
def Tracking.along (text : Text) : Tracking where
  cursor c c' := c' = c ∧ c.At text
  position p p' := p' = p
  rest_eq h := by rw [h.1]
  skip h hrest := ⟨by rw [h.1], Cursor.skip_at h.2 ⟨_, hrest.symm⟩⟩
  pos h := by rw [h.1]
  offset_iff h h' := by rw [h.1, h'.1]
  lt_iff h h' := by rw [h, h']

theorem forall_of_forall₂ {α : Type} {P : α → Prop} {as bs : List α}
    (h : List.Forall₂ (fun a _ => P a) as bs) : ∀ a ∈ as, P a := by
  induction h with
  | nil => exact fun a ha => absurd ha List.not_mem_nil
  | cons hp _ ih => exact List.forall_mem_cons.mpr ⟨hp, ih⟩

variable {K : Tracking} {P : Expr → Prop}

/-- What holds of the parts that a node was made of. -/
theorem Node.Matches.parts {node node' : Node} (h : node.Matches K (fun e _ => P e) node') :
    ∀ e ∈ node.parts, P e := by
  cases h with
  | var name => exact fun e he => absurd he List.not_mem_nil
  | tick name => exact fun e he => absurd he List.not_mem_nil
  | natLit value => exact fun e he => absurd he List.not_mem_nil
  | constant c => exact fun e he => absurd he List.not_mem_nil
  | form f h => exact forall_of_forall₂ h
  | lambda hbs hbody => exact List.forall_mem_singleton.mpr hbody
  | @quantified q bs bs' body body' hbs hbody =>
      have htypes : ∀ b ∈ bs, P b.type := forall_of_forall₂ (hbs.imp fun _ _ hb => hb.2.2)
      intro e he
      rcases List.mem_append.mp he with he | he
      · obtain ⟨b, hb, rfl⟩ := List.mem_map.mp he
        exact htypes b hb
      · rw [List.mem_singleton.mp he]
        exact hbody
  | arrow harg hrest => exact List.forall_mem_cons.mpr ⟨harg, forall_of_forall₂ hrest⟩
  | app hhead hargs => exact List.forall_mem_cons.mpr ⟨hhead, forall_of_forall₂ hargs⟩

theorem Statement.Matches.parts {statement statement' : Statement}
    (h : statement.Matches K (fun e _ => P e) statement') : ∀ e ∈ statement.parts, P e := by
  cases h with
  | claim hname h => exact List.forall_mem_singleton.mpr h
  | define hname h => exact List.forall_mem_singleton.mpr h
  | checkSame htype hleft hright =>
      exact List.forall_mem_cons.mpr ⟨htype, List.forall_mem_cons.mpr
        ⟨hleft, List.forall_mem_singleton.mpr hright⟩⟩
  | expr h => exact List.forall_mem_singleton.mpr h

namespace Grammar

variable {source : String} {text : Text} {I : Nat → Expr → Prop} {k : Nat} {c d : Cursor}

/-- What was read below a ceiling has `I` there, if the parts of it have. -/
def Kept (source : String) (text : Text) (I : Nat → Expr → Prop) : Prop :=
  ∀ k c e d, c.At text → expr.eval (rules.call source k) source c = .ok e d →
    (∀ e' ∈ e.value.parts, I k e') → I (k + 1) e

variable (hI : Kept source text I)

include hI

theorem Kept.call (n : Production) {c' : Cursor} (hc : (Tracking.along text).cursor c c') :
    Outcome.Related (Tracking.along text) (Likeness (fun e _ => I k e) n)
      (rules.call source k n c) (rules.call source k n c') := by
  induction k generalizing n c c' with
  | zero => exact .interrupted (.other _ fun _ _ _ h => by cases h)
  | succ k ih =>
      have hcall : ∀ n c c', (Tracking.along text).cursor c c' →
          Outcome.Related (Tracking.along text) (Likeness (fun e _ => I k e) n)
            (rules.call source k n c) (rules.call source k n c') := fun n _ _ hc => ih n hc
      cases n with
      | spacing => exact Parser.eval_related hcall source spacing_alike hc
      | datum => exact Parser.eval_related hcall source datum_alike hc
      | expr =>
          have h := Parser.eval_related hcall source expr_alike hc
          obtain ⟨rfl, hat⟩ := hc
          show Outcome.Related (Tracking.along text) (fun e _ => I (k + 1) e)
            (expr.eval (rules.call source k) source c') (expr.eval (rules.call source k) source c')
          cases heval : expr.eval (rules.call source k) source c' with
          | ok e d =>
              rw [heval] at h
              cases h with
              | ok hnode hd => exact .ok (hI k c' e d hat heval hnode.2.parts) hd
          | fail f =>
              rw [heval] at h
              cases h with
              | fail hf => exact .fail hf
          | interrupted why =>
              rw [heval] at h
              cases h with
              | interrupted hw => exact .interrupted hw

/-- An expression that was read. -/
theorem Kept.expr {e : Expr} (hc : c.At text)
    (h : expr.eval (rules.call source k) source c = .ok e d) : I (k + 1) e := by
  have hself : (Tracking.along text).cursor c c := ⟨rfl, hc⟩
  have hrel := Kept.call hI (k := k + 1) .expr hself
  rw [show rules.call source (k + 1) .expr c = .ok e d from h] at hrel
  cases hrel with
  | ok he hd => exact he

/-- A top-level form that was read: its parts were read by calls, or it is an expression that was
read itself. -/
theorem Kept.topLevel {t : TopLevel} (hc : c.At text)
    (h : topLevel.eval (rules.call source k) source c = .ok t d) :
    (∀ e ∈ t.value.parts, I k e) ∨ ∃ e, t = ⟨e.loc, .expr e⟩ ∧ I (k + 1) e := by
  rcases Parser.eval_orElse_ok h with h | h
  · have hself : (Tracking.along text).cursor c c := ⟨rfl, hc⟩
    have hrel := Parser.eval_related (fun n _ _ hc => Kept.call hI (k := k) n hc) source
      (parensLocated_alike (dispatch_alike commandTable commandBody_alike)) hself
    rw [h] at hrel
    cases hrel with
    | ok ht hd => exact Or.inl ht.2.parts
  · obtain ⟨e, he, rfl⟩ := Parser.eval_map_ok h
    exact Or.inr ⟨e, rfl, Kept.expr hI hc he⟩

end Grammar

/-! ## Programs -/

variable {source : String} {s : Text} {ts : List TopLevel} {t : TopLevel}

/-- Each form of a program was returned by a run somewhere in the text. -/
theorem exists_eval_of_mem (h : parseSource source s ceiling = .ok ts) (ht : t ∈ ts) :
    ∃ c d, c.At s ∧
      Grammar.topLevel.eval (Grammar.rules.call source ceiling) source c = .ok t d := by
  obtain ⟨d, hd⟩ := parseSource_eq_ok_iff.mp h
  have hcall := Grammar.rules.call_reaches source ceiling
  obtain ⟨u, c₁, hlang, hforms⟩ := Parser.eval_andThen_ok hd
  have hreach := Parser.reaches_of_eval hcall hlang
  obtain ⟨c₂, d₂, hreach', ht'⟩ := (Parser.eval_manyTill_ok hcall hforms).mem
    (Parser.eval_reaches hcall source Grammar.topLevel) ht
  exact ⟨c₂, d₂, (hreach.trans hreach').at (Cursor.start_at s), ht'⟩

/-- Two levels are left for the trivia below an expression, and one for the expression itself. -/
theorem kept_depth : Grammar.Kept source s fun k e => exprDepth e + 2 ≤ k := by
  intro k c e d _ h hparts
  obtain ⟨x, m, -, -, hskip⟩ := Grammar.stands_of_eval_expr h
  obtain ⟨j, rfl⟩ : ∃ j, k = j + 1 := by
    cases k with
    | zero => cases hskip
    | succ j => exact ⟨j, rfl⟩
  have hdepth : e.value.depth ≤ j := Node.depth_le fun e' he' => by
    have hle := hparts e' he'
    omega
  obtain ⟨loc, node⟩ := e
  show node.depth + 2 ≤ j + 1 + 1
  have hnode : node.depth ≤ j := hdepth
  omega

/-- The trees of a program are less deep than the ceiling. -/
theorem depth_lt_of_parseSource (h : parseSource source s ceiling = .ok ts) (ht : t ∈ ts) :
    t.depth < ceiling := by
  obtain ⟨c, d, hc, ht'⟩ := exists_eval_of_mem h ht
  rcases kept_depth.topLevel hc ht' with hparts | ⟨e, rfl, he⟩
  · obtain ⟨loc, statement⟩ := t
    show statement.depth < ceiling
    cases statement with
    | claim name type =>
        have hle := hparts type List.mem_cons_self
        rw [Statement.depth]
        omega
    | define name value =>
        have hle := hparts value List.mem_cons_self
        rw [Statement.depth]
        omega
    | checkSame type left right =>
        have htype := hparts type (by simp [Statement.parts])
        have hleft := hparts left (by simp [Statement.parts])
        have hright := hparts right (by simp [Statement.parts])
        rw [Statement.depth]
        omega
    | expr e =>
        have hle := hparts e List.mem_cons_self
        rw [Statement.depth]
        omega
  · show exprDepth e < ceiling
    omega

/-- The expression was returned by a run somewhere in the text, below the given level. -/
def ReadBelow (source : String) (s : Text) (k : Nat) (e : Expr) : Prop :=
  ∃ j < k, ∃ c d, c.At s ∧ Grammar.expr.eval (Grammar.rules.call source j) source c = .ok e d

theorem ReadBelow.mono {k k' : Nat} {e : Expr} (h : ReadBelow source s k e) (hk : k ≤ k') :
    ReadBelow source s k' e := by
  obtain ⟨j, hj, hrun⟩ := h
  exact ⟨j, by omega, hrun⟩

theorem kept_readBelow :
    Grammar.Kept source s fun k e => ∀ e' ∈ subexpressions e, ReadBelow source s k e' := by
  intro k c e d hc h hparts e' he'
  rw [subexpressions_eq] at he'
  rcases List.mem_cons.mp he' with rfl | he'
  · exact ⟨k, Nat.lt_succ_self k, c, d, hc, h⟩
  · obtain ⟨part, hpart, hmem⟩ := Node.mem_subexpressions.mp he'
    exact (hparts part hpart e' hmem).mono (Nat.le_succ k)

/-- Every expression within a program was returned by a run somewhere in the text. -/
theorem exists_eval_of_mem_subexpressions {e : Expr} (h : parseSource source s ceiling = .ok ts)
    (ht : t ∈ ts) (he : e ∈ t.subexpressions) : ReadBelow source s (ceiling + 1) e := by
  obtain ⟨c, d, hc, ht'⟩ := exists_eval_of_mem h ht
  rcases kept_readBelow.topLevel hc ht' with hparts | ⟨e', rfl, he'⟩
  · obtain ⟨part, hpart, hmem⟩ := Statement.mem_subexpressions.mp he
    exact (hparts part hpart e hmem).mono (Nat.le_succ _)
  · exact he' e he

end PieSyntax
