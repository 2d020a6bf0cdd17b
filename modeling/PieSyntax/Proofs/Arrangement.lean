import Mathlib.Order.Bounds.Basic
import PieSyntax.Proofs.Reordering

/-!
# The arrangement of alternatives

Alternatives can be tried two at a time or in one go, and what is tried may be made of alternatives
itself.  `Parser.Arranges ps p` says that `p` tries the parsers `ps`, in this order, in some such way.
How they are nested makes no difference: a later alternative is tried after all earlier ones have
failed, and the furthest of several failures is found by comparing them two by two.

A failure is below another if the other is the furthest of the two.  Since taking the furthest is
associative, commutative and idempotent, this is an order, and the failures form a semilattice.  Hence
a choice in which all alternatives fail does so with the least upper bound of their failures, and
neither the order of the alternatives nor how often one is tried makes a difference to it.

## Main results

* `Parser.Arranges.eval_eq` — nested alternatives do what a choice of them does.
* `Parser.Arranges.exists_isLUB` — where they all fail, with the least upper bound of the failures.
* `failures_semilattice` — failures do not depend on the arrangement of the alternatives.
-/

namespace PieSyntax

/-! ## Semilattices -/

instance : SemilatticeSup Failure :=
  @SemilatticeSup.mk' Failure ⟨Failure.furthest⟩ Failure.furthest_comm Failure.furthest_assoc
    Failure.furthest_self

theorem Failure.sup_eq (f g : Failure) : f ⊔ g = f.furthest g := rfl

namespace Outcome

variable {α : Type} {o : Outcome α} {os : List (Outcome α)} {f g h : Failure}

instance : Std.Associative (@Outcome.either α) := ⟨either_assoc⟩

/-- One failure stands for two if it is the furthest of them. -/
theorem isLUB_furthest_cons :
    IsLUB {k | Outcome.fail k ∈ (.fail (f.furthest g) :: os : List (Outcome α))} h ↔
      IsLUB {k | Outcome.fail k ∈ (.fail f :: .fail g :: os : List (Outcome α))} h := by
  have hsame : upperBounds {k | Outcome.fail k ∈ (.fail (f.furthest g) :: os : List (Outcome α))} =
      upperBounds {k | Outcome.fail k ∈ (.fail f :: .fail g :: os : List (Outcome α))} := by
    ext b
    simp only [mem_upperBounds, Set.mem_ofPred_eq, List.mem_cons, Outcome.fail.injEq, or_imp,
      forall_and, forall_eq, ← Failure.sup_eq, sup_le_iff, and_assoc]
  rw [IsLUB, IsLUB, hsame]

/-- Where all fail, the furthest failure is the least upper bound of them. -/
theorem exists_isLUB_of_foldl (hall : ∀ o' ∈ o :: os, ∃ f, o' = .fail f) :
    ∃ f, os.foldl either o = .fail f ∧ IsLUB {g | Outcome.fail g ∈ o :: os} f := by
  induction os generalizing o with
  | nil =>
      obtain ⟨f, rfl⟩ := hall o List.mem_cons_self
      refine ⟨f, rfl, ?_⟩
      have hone : {g | Outcome.fail g ∈ ([.fail f] : List (Outcome α))} = {f} := by
        ext g
        simp
      rw [hone]
      exact isLUB_singleton
  | cons o' os ih =>
      obtain ⟨f, rfl⟩ := hall o List.mem_cons_self
      obtain ⟨g, rfl⟩ := hall o' (by simp)
      have hrest : ∀ o'' ∈ .fail (f.furthest g) :: os, ∃ k, o'' = Outcome.fail k := by
        intro o'' ho
        rcases List.mem_cons.mp ho with rfl | ho
        · exact ⟨_, rfl⟩
        · exact hall o'' (by simp [ho])
      obtain ⟨h, hfold, hlub⟩ := ih hrest
      exact ⟨h, hfold, isLUB_furthest_cons.mp hlub⟩

end Outcome

namespace Parser

variable {N : Type} {R : N → Type} {α : Type}

/-! ## Nested alternatives -/

mutual

/-- The parser tries those in the list, in this order, however they are nested. -/
inductive Arranges : List (Parser N R α) → Parser N R α → Prop where
  | one (p : Parser N R α) : Arranges [p] p
  | orElse {ps qs : List (Parser N R α)} {p q : Parser N R α} (hp : Arranges ps p)
    (hq : Arranges qs q) : Arranges (ps ++ qs) (p.orElse q)
  | choice {ps qs rs : List (Parser N R α)} {p : Parser N R α} (hp : Arranges ps p)
    (hrest : ArrangesAll qs rs) : Arranges (ps ++ qs) (choice (p :: rs))

/-- The parsers in the second list try those in the first one. -/
inductive ArrangesAll : List (Parser N R α) → List (Parser N R α) → Prop where
  | nil : ArrangesAll [] []
  | cons {ps qs rs : List (Parser N R α)} {p : Parser N R α} (hp : Arranges ps p)
    (hrest : ArrangesAll qs rs) : ArrangesAll (ps ++ qs) (p :: rs)

end

theorem arrangesAll_self (ps : List (Parser N R α)) : ArrangesAll ps ps := by
  induction ps with
  | nil => exact .nil
  | cons p ps ih => exact .cons (.one p) ih

theorem arranges_choice (p : Parser N R α) (ps : List (Parser N R α)) :
    Arranges (p :: ps) (choice (p :: ps)) := .choice (.one p) (arrangesAll_self ps)

theorem Arranges.foldl {qs : List (Parser N R α)} {q : Parser N R α} (h : Arranges qs q)
    (ps : List (Parser N R α)) : Arranges (qs ++ ps) (ps.foldl .orElse q) := by
  induction ps generalizing qs q with
  | nil =>
      rw [List.append_nil]
      exact h
  | cons p ps ih =>
      have hrest := ih (h.orElse (.one p))
      rwa [List.append_assoc] at hrest

/-- Alternatives two at a time, nested to the right. -/
def rightNested : Parser N R α → List (Parser N R α) → Parser N R α
  | p, [] => p
  | p, q :: qs => p.orElse (rightNested q qs)

theorem arranges_rightNested (p : Parser N R α) (ps : List (Parser N R α)) :
    Arranges (p :: ps) (rightNested p ps) := by
  induction ps generalizing p with
  | nil => exact .one p
  | cons q qs ih => exact .orElse (.one p) (ih q)

/-! ## What they do -/

variable {call : (n : N) → Cursor → Outcome (R n)} {source : String} {c : Cursor}
variable {ps qs rs : List (Parser N R α)} {p q : Parser N R α}

/-- What the parsers do where they all start. -/
abbrev outcomes (call : (n : N) → Cursor → Outcome (R n)) (source : String) (c : Cursor)
    (ps : List (Parser N R α)) : List (Outcome α) :=
  ps.map fun p => p.eval call source c

theorem eval_choice_cons (p : Parser N R α) (ps : List (Parser N R α)) :
    (choice (p :: ps)).eval call source c =
      (outcomes call source c ps).foldl Outcome.either (p.eval call source c) := by
  rw [eval_choice_eq_foldl, eval_foldl_either]

theorem eval_choice_append (hne : ps ≠ []) (qs : List (Parser N R α)) :
    (choice (ps ++ qs)).eval call source c =
      (outcomes call source c qs).foldl Outcome.either ((choice ps).eval call source c) := by
  obtain ⟨p, ps, rfl⟩ := List.exists_cons_of_ne_nil hne
  rw [List.cons_append, eval_choice_cons, eval_choice_cons, outcomes, List.map_append,
    List.foldl_append]

/-- What is tried before several alternatives is tried before a choice of them. -/
theorem foldl_outcomes (hne : ps ≠ []) (o : Outcome α) :
    (outcomes call source c ps).foldl Outcome.either o =
      o.either ((choice ps).eval call source c) := by
  obtain ⟨p, ps, rfl⟩ := List.exists_cons_of_ne_nil hne
  rw [eval_choice_cons, outcomes, List.map_cons, List.foldl_cons]
  exact List.foldl_assoc

theorem Arranges.ne_nil {ps : List (Parser N R α)} {p : Parser N R α} (h : Arranges ps p) :
    ps ≠ [] := by
  match h with
  | .one p => exact List.cons_ne_nil _ _
  | .orElse hp hq => exact List.append_ne_nil_of_left_ne_nil hp.ne_nil _
  | .choice hp hrest => exact List.append_ne_nil_of_left_ne_nil hp.ne_nil _

mutual

/-- Nested alternatives do what a choice of them does. -/
theorem Arranges.eval_eq {ps : List (Parser N R α)} {p : Parser N R α} (h : Arranges ps p) :
    p.eval call source c = (Parser.choice ps).eval call source c := by
  match h with
  | .one p =>
      rw [eval_choice_cons]
      rfl
  | @Arranges.orElse _ _ _ ps qs p q hp hq =>
      rw [eval_orElse, eval_choice_append hp.ne_nil, foldl_outcomes hq.ne_nil, ← Arranges.eval_eq hp,
        ← Arranges.eval_eq hq]
  | @Arranges.choice _ _ _ ps qs rs p hp hrest =>
      rw [eval_choice_append hp.ne_nil, eval_choice_cons, ArrangesAll.foldl_outcomes hrest,
        Arranges.eval_eq hp]

theorem ArrangesAll.foldl_outcomes {qs rs : List (Parser N R α)} (h : ArrangesAll qs rs)
    (o : Outcome α) :
    (outcomes call source c rs).foldl Outcome.either o =
      (outcomes call source c qs).foldl Outcome.either o := by
  match h with
  | .nil => rfl
  | @ArrangesAll.cons _ _ _ ps qs rs p hp hrest =>
      rw [outcomes, outcomes, List.map_append, List.foldl_append, Parser.foldl_outcomes hp.ne_nil,
        ← Arranges.eval_eq hp, List.map_cons, List.foldl_cons]
      exact ArrangesAll.foldl_outcomes hrest _

end

/-- The alternatives fail with the least upper bound of their failures. -/
theorem Arranges.exists_isLUB (h : Arranges ps p)
    (hall : ∀ q ∈ ps, ∃ f, q.eval call source c = .fail f) :
    ∃ f, p.eval call source c = .fail f ∧
      IsLUB {g | ∃ q ∈ ps, q.eval call source c = .fail g} f := by
  obtain ⟨q, qs, rfl⟩ := List.exists_cons_of_ne_nil h.ne_nil
  have houtcomes : ∀ o ∈ outcomes call source c (q :: qs), ∃ f, o = .fail f := by
    intro o ho
    obtain ⟨r, hr, rfl⟩ := List.mem_map.mp ho
    exact hall r hr
  obtain ⟨f, hfold, hlub⟩ := Outcome.exists_isLUB_of_foldl houtcomes
  refine ⟨f, h.eval_eq.trans ((eval_choice_cons q qs).trans hfold), ?_⟩
  have hsame : {g | ∃ r ∈ q :: qs, r.eval call source c = .fail g} =
      {g | Outcome.fail g ∈ outcomes call source c (q :: qs)} := by
    ext g
    exact List.mem_map.symm
  rw [hsame]
  exact hlub

/-- The same alternatives in another order, or some of them more than once. -/
theorem Arranges.eval_eq_of_mem_iff (hp : Arranges ps p) (hq : Arranges qs q)
    (hmem : ∀ r, r ∈ qs ↔ r ∈ ps) (hall : ∀ r ∈ ps, ∃ f, r.eval call source c = .fail f) :
    q.eval call source c = p.eval call source c := by
  obtain ⟨f, hf, hlub⟩ := hp.exists_isLUB hall
  obtain ⟨g, hg, hlub'⟩ := hq.exists_isLUB fun r hr => hall r ((hmem r).mp hr)
  simp only [hmem] at hlub'
  rw [hf, hg, hlub'.unique hlub]

end Parser

/-- Failures form a semilattice, and so do what they ask for.  Alternatives do the same in whichever
way they are nested; and where all of them fail, in whichever order they are tried and however often. -/
theorem failures_semilattice :
    ((∀ e₁ e₂ e₃ : Expectation, (e₁.merge e₂).merge e₃ = e₁.merge (e₂.merge e₃)) ∧
      (∀ e₁ e₂ : Expectation, e₁.merge e₂ = e₂.merge e₁) ∧ (∀ e : Expectation, e.merge e = e) ∧
      ∀ e : Expectation, Expectation.merge .generic e = e ∧ e.merge .generic = e) ∧
    ((∀ f g h : Failure, (f.furthest g).furthest h = f.furthest (g.furthest h)) ∧
      (∀ f g : Failure, f.furthest g = g.furthest f) ∧ ∀ f : Failure, f.furthest f = f) ∧
    ∀ {N : Type} {R : N → Type} (call : (n : N) → Cursor → Outcome (R n)) (source : String)
      {α : Type} (p : Parser N R α) (ps : List (Parser N R α)) (c : Cursor),
      (∀ q, Parser.Arranges (p :: ps) q →
        q.eval call source c = (Parser.choice (p :: ps)).eval call source c) ∧
      (ps.foldl .orElse p).eval call source c = (Parser.choice (p :: ps)).eval call source c ∧
      (Parser.rightNested p ps).eval call source c =
        (Parser.choice (p :: ps)).eval call source c ∧
      ((∀ q ∈ p :: ps, ∃ f, q.eval call source c = .fail f) →
        ∃ f, (Parser.choice (p :: ps)).eval call source c = .fail f ∧
          ∀ qs q, (∀ r, r ∈ qs ↔ r ∈ p :: ps) → Parser.Arranges qs q →
            q.eval call source c = .fail f) := by
  refine ⟨⟨Expectation.merge_assoc, Expectation.merge_comm, Expectation.merge_self,
      fun e => ⟨Expectation.generic_merge e, Expectation.merge_generic e⟩⟩,
    ⟨Failure.furthest_assoc, Failure.furthest_comm, Failure.furthest_self⟩,
    fun call source α p ps c => ?_⟩
  have hnested : ∀ q, Parser.Arranges (p :: ps) q →
      q.eval call source c = (Parser.choice (p :: ps)).eval call source c :=
    fun q hq => hq.eval_eq
  refine ⟨hnested, hnested _ ((Parser.Arranges.one p).foldl ps),
    hnested _ (Parser.arranges_rightNested p ps), fun hall => ?_⟩
  have hchoice := Parser.arranges_choice p ps
  obtain ⟨f, hf, -⟩ := hchoice.exists_isLUB hall
  exact ⟨f, hf, fun qs q hmem hq => (hchoice.eval_eq_of_mem_iff hq hmem hall).trans hf⟩

/-- Three words, and the same ones in another order, nested and with one of them tried twice. -/
theorem semilattice_threeWords :
    ∃ q : PieParser Text,
      Parser.Arranges [.text "c".toList, .text "xz".toList, .text "ab".toList, .text "xz".toList] q ∧
      ∃ f : Failure, f.pos = ⟨1, 2⟩ ∧
        Grammar.rules.run nestingCeiling memorySource
            (Parser.choice [.text "ab".toList, .text "xz".toList, .text "c".toList])
              (.start "xy".toList) = .fail f ∧
        Grammar.rules.run nestingCeiling memorySource q (.start "xy".toList) = .fail f := by
  have hall : ∀ p ∈ [.text "ab".toList, .text "xz".toList, .text "c".toList], ∃ f,
      (p : PieParser Text).eval (Grammar.rules.call memorySource nestingCeiling) memorySource
        (.start "xy".toList) = .fail f := by
    simp only [List.forall_mem_cons, List.not_mem_nil, false_imp_iff, implies_true, and_true]
    exact ⟨⟨_, rfl⟩, ⟨_, rfl⟩, ⟨_, rfl⟩⟩
  obtain ⟨f, hf, hsame⟩ := (failures_semilattice.2.2 (Grammar.rules.call memorySource nestingCeiling)
    memorySource (.text "ab".toList) [.text "xz".toList, .text "c".toList]
      (.start "xy".toList)).2.2.2 hall
  have hnested : Parser.Arranges
      [.text "c".toList, .text "xz".toList, .text "ab".toList, .text "xz".toList]
      ((Parser.text "c".toList : PieParser Text).orElse
        (Parser.choice [.text "xz".toList, .text "ab".toList, .text "xz".toList])) :=
    Parser.Arranges.orElse (.one _) (Parser.arranges_choice _ _)
  refine ⟨_, hnested, f, ?_, hf, hsame _ _ (fun r => ?_) hnested⟩
  · cases hf
    rfl
  · simp only [List.mem_cons, List.not_mem_nil, or_false]
    tauto

end PieSyntax
