import Mathlib.Data.List.Basic
import Mathlib.Data.List.OfFn
import Mathlib.Data.List.Pairwise
import PieSyntax.Proofs.Confined

/-!
# The order of alternatives

Alternatives are tried in order, and the first that does not fail decides.  Where at most one of them
does not fail, the order is immaterial: the same one decides, or all fail, and the furthest failure
is the same in whichever order failures are compared.

`Parser.Unambiguous` says of a parser and of its parts that alternatives exclude one another.  That is
enough for any number of choices to be reordered at once, which is what `Parser.Reorders` does.  The
name of a parser does depend on the order of its alternatives, but a name is seen only where a
repetition stands still; so `Unambiguous` says as well that what is repeated reads a character.

## Main results

* `Outcome.foldl_orElse_perm` — outcomes that exclude one another, in any order.
* `Parser.unambiguous_foldl` — a choice is unambiguous if its alternatives exclude one another.
* `Parser.Reorders.sound` — an unambiguous parser and a reordered one do the same.
-/

namespace PieSyntax

namespace Outcome

variable {α : Type} {o o' : Outcome α}

/-- One of two alternatives fails. -/
def Excludes (o o' : Outcome α) : Prop := (∃ f, o = .fail f) ∨ ∃ f, o' = .fail f

instance : Std.Symm (@Excludes α) := ⟨fun _ _ h => Or.symm h⟩

/-- Tries an outcome, and another one after a failure. -/
abbrev either (o o' : Outcome α) : Outcome α := o.orElse fun _ => o'

theorem either_fail_fail (f g : Failure) :
    either (.fail f : Outcome α) (.fail g) = .fail (f.furthest g) := rfl

theorem either_assoc (o o' o'' : Outcome α) :
    (o.either o').either o'' = o.either (o'.either o'') := by
  cases o with
  | ok a d => rfl
  | interrupted why => rfl
  | fail f =>
      cases o' with
      | ok a d => rfl
      | interrupted why => rfl
      | fail g =>
          cases o'' with
          | ok a d => rfl
          | interrupted why => rfl
          | fail h => simp only [either_fail_fail, Failure.furthest_assoc]

theorem Excludes.either_comm (h : o.Excludes o') : o.either o' = o'.either o := by
  rcases h with ⟨f, rfl⟩ | ⟨f, rfl⟩
  · cases o' with
    | ok a d => rfl
    | interrupted why => rfl
    | fail g => simp only [either_fail_fail, Failure.furthest_comm f g]
  · cases o with
    | ok a d => rfl
    | interrupted why => rfl
    | fail g => simp only [either_fail_fail, Failure.furthest_comm f g]

/-- Where an attempt starts, a failure that says nothing is as good as none. -/
theorem failAt_either {c : Cursor} (h : o.AheadOf c) : (failAt c .generic).either o = o := by
  cases o with
  | ok a d => rfl
  | interrupted why => rfl
  | fail f =>
      obtain ⟨d, hd, hpos⟩ := h
      refine congrArg Outcome.fail ?_
      rcases hd.pos_le with hlt | heq
      · exact Failure.furthest_of_lt (hpos ▸ hlt)
      · rw [Failure.furthest_of_pos_eq (heq.trans hpos.symm)]
        show Failure.mk c.pos (Expectation.merge .generic f.expectation) = f
        rw [Expectation.merge, heq.trans hpos.symm]

/-- Outcomes of which at most one is no failure may be tried in any order. -/
theorem foldl_orElse_perm {os os' : List (Outcome α)} (hperm : os.Perm os')
    (hex : os.Pairwise Excludes) (o : Outcome α) : os.foldl either o = os'.foldl either o := by
  refine hperm.foldl_eq' (fun x hx y hy z => ?_) o
  by_cases hxy : x = y
  · rw [hxy]
  · have hcomm : x.either y = y.either x :=
      (hex.forall hx hy hxy).either_comm
    rw [either_assoc, hcomm, either_assoc]

end Outcome

namespace Parser

variable {N : Type} {R : N → Type}

section

variable (call : (n : N) → Cursor → Outcome (R n)) (source : String)

/-- Wherever both are tried, one of the two fails. -/
def Excludes {α : Type} (p q : Parser N R α) : Prop :=
  ∀ c, (p.eval call source c).Excludes (q.eval call source c)

/-- All alternatives in the parser exclude one another, and what it repeats reads a character. -/
def Unambiguous : {α : Type} → Parser N R α → Prop
  | _, .refine p _ => Unambiguous p
  | _, .bind p next =>
    Unambiguous p ∧ ∀ c a d, p.eval call source c = .ok a d → Unambiguous (next a)
  | _, .alternatives first rest =>
    (first :: List.ofFn rest).Pairwise (Excludes call source) ∧ Unambiguous first ∧
      ∀ i, Unambiguous (rest i)
  | _, .many p => Consumes call source p ∧ Unambiguous p
  | _, .manyTill p stop => Consumes call source p ∧ Unambiguous p ∧ Unambiguous stop
  | _, .located p => Unambiguous p
  | _, .named _ p => Unambiguous p
  | _, _ => True

end

/-- The second parser has the parts of the first, with the alternatives of choices in another order,
and possibly other names. -/
inductive Reorders : {α : Type} → Parser N R α → Parser N R α → Prop where
  | refl {α : Type} (p : Parser N R α) : Reorders p p
  | trans {α : Type} {p q r : Parser N R α} (h : Reorders p q) (h' : Reorders q r) : Reorders p r
  /-- The alternatives of a choice in another order. -/
  | choice {α : Type} {ps qs : List (Parser N R α)} (h : ps.Perm qs) :
    Reorders (.choice ps) (.choice qs)
  /-- Alternatives two at a time, in another order. -/
  | perm {α : Type} {p q : Parser N R α} {ps qs : List (Parser N R α)}
    (h : (p :: ps).Perm (q :: qs)) : Reorders (ps.foldl .orElse p) (qs.foldl .orElse q)
  | alternatives {α : Type} {n : Nat} {p p' : Parser N R α} {ps ps' : Fin n → Parser N R α}
    (h : Reorders p p') (hs : ∀ i, Reorders (ps i) (ps' i)) :
    Reorders (.alternatives p ps) (.alternatives p' ps')
  | refine {α β : Type} {p p' : Parser N R α} (judge : α → Verdict β) (h : Reorders p p') :
    Reorders (p.refine judge) (p'.refine judge)
  | bind {α β : Type} {p p' : Parser N R α} {next next' : α → Parser N R β} (h : Reorders p p')
    (hnext : ∀ a, Reorders (next a) (next' a)) : Reorders (p.bind next) (p'.bind next')
  | many {α : Type} {p p' : Parser N R α} (h : Reorders p p') : Reorders p.many p'.many
  | manyTill {α β : Type} {p p' : Parser N R α} {stop stop' : Parser N R β} (h : Reorders p p')
    (hstop : Reorders stop stop') : Reorders (p.manyTill stop) (p'.manyTill stop')
  | located {α : Type} {p p' : Parser N R α} (h : Reorders p p') : Reorders p.located p'.located
  | named {α : Type} {p p' : Parser N R α} (name name' : String) (h : Reorders p p') :
    Reorders (.named name p) (.named name' p')

theorem Reorders.orElse {α : Type} {p p' q q' : Parser N R α} (hp : Reorders p p')
    (hq : Reorders q q') : Reorders (p.orElse q) (p'.orElse q') :=
  .alternatives hp fun _ => hq

variable {call : (n : N) → Cursor → Outcome (R n)} {source : String} {α β : Type}
variable {p p' q r : Parser N R α}

/-! ## The alternatives of a choice -/

instance : Std.Symm (Excludes (α := α) call source) := ⟨fun _ _ h c => Or.symm (h c)⟩

theorem excludes_orElse_left : Excludes call source (p.orElse q) r ↔
    Excludes call source p r ∧ Excludes call source q r := by
  constructor
  · intro h
    constructor
    · intro c
      rcases h c with ⟨f, hf⟩ | hr
      · obtain ⟨g, -, hp, -, -⟩ := eval_orElse_fail hf
        exact Or.inl ⟨g, hp⟩
      · exact Or.inr hr
    · intro c
      rcases h c with ⟨f, hf⟩ | hr
      · obtain ⟨-, g, -, hq, -⟩ := eval_orElse_fail hf
        exact Or.inl ⟨g, hq⟩
      · exact Or.inr hr
  · rintro ⟨hp, hq⟩ c
    rcases hp c with ⟨f, hf⟩ | hr
    · rcases hq c with ⟨g, hg⟩ | hr
      · exact Or.inl ⟨f.furthest g, by rw [eval_orElse, hf, hg]; rfl⟩
      · exact Or.inr hr
    · exact Or.inr hr

theorem unambiguous_orElse : (p.orElse q).Unambiguous call source ↔
    Excludes call source p q ∧ p.Unambiguous call source ∧ q.Unambiguous call source := by
  rw [orElse, Unambiguous, List.ofFn_succ, List.ofFn_zero, List.pairwise_pair]
  simp

theorem unambiguous_choice {ps : List (Parser N R α)} : (choice ps).Unambiguous call source ↔
    ps.Pairwise (Excludes call source) ∧ ∀ q ∈ ps, q.Unambiguous call source := by
  cases ps with
  | nil => simp [choice, Unambiguous]
  | cons p ps =>
      rw [choice, Unambiguous, List.ofFn_get, List.forall_mem_cons, List.forall_mem_iff_get]

theorem unambiguous_foldl {ps : List (Parser N R α)} :
    (ps.foldl .orElse p).Unambiguous call source ↔
      (p :: ps).Pairwise (Excludes call source) ∧ ∀ q ∈ p :: ps, q.Unambiguous call source := by
  induction ps generalizing p with
  | nil => simp
  | cons q ps ih =>
      rw [List.foldl_cons, ih]
      simp only [List.pairwise_cons, List.forall_mem_cons, unambiguous_orElse, excludes_orElse_left]
      grind

theorem eval_foldl_either (p : Parser N R α) (ps : List (Parser N R α)) (c : Cursor) :
    (ps.foldl .orElse p).eval call source c =
      (ps.map fun q => q.eval call source c).foldl Outcome.either (p.eval call source c) := by
  rw [eval_foldl_orElse, List.foldl_map, List.foldl_map]

/-- A choice does the same in every order of its alternatives, where they exclude one another. -/
theorem eval_foldl_perm (hcall : ∀ n c, (call n c).AheadOf c) {ps qs : List (Parser N R α)}
    {c : Cursor} (hperm : (p :: ps).Perm (q :: qs))
    (hex : (p :: ps).Pairwise fun p q => (p.eval call source c).Excludes (q.eval call source c)) :
    (ps.foldl .orElse p).eval call source c = (qs.foldl .orElse q).eval call source c := by
  have hstart : ∀ r (rs : List (Parser N R α)), (rs.foldl .orElse r).eval call source c =
      ((r :: rs).map fun q => q.eval call source c).foldl Outcome.either (.failAt c .generic) := by
    intro r rs
    rw [eval_foldl_either, List.map_cons, List.foldl_cons,
      Outcome.failAt_either (eval_reaches hcall source r c)]
  rw [hstart, hstart]
  exact Outcome.foldl_orElse_perm (hperm.map _) (List.pairwise_map.mpr hex) _

theorem eval_choice_perm (hcall : ∀ n c, (call n c).AheadOf c) {ps qs : List (Parser N R α)}
    {c : Cursor} (hperm : ps.Perm qs)
    (hex : ps.Pairwise fun p q => (p.eval call source c).Excludes (q.eval call source c)) :
    (choice ps).eval call source c = (choice qs).eval call source c := by
  cases ps with
  | nil =>
      obtain rfl := hperm.nil_eq
      rfl
  | cons p ps =>
      cases qs with
      | nil => cases hperm.eq_nil
      | cons q qs =>
          rw [eval_choice_eq_foldl, eval_choice_eq_foldl]
          exact eval_foldl_perm hcall hperm hex

/-! ## Repetitions -/

/-- The name of what is repeated is not seen, since no repetition stands still. -/
theorem eval_many_congr (hcall : ∀ n c, (call n c).AheadOf c) (hp : Consumes call source p)
    (heq : ∀ c, p'.eval call source c = p.eval call source c) (c : Cursor) :
    p'.many.eval call source c = p.many.eval call source c := by
  induction c using Cursor.forward_induction with
  | step c ih =>
      rw [eval_many hcall, eval_many hcall, heq]
      cases hok : p.eval call source c with
      | fail f => rfl
      | interrupted why => rfl
      | ok a d =>
          have hlt := hp c a d hok
          have hne := (reaches_of_eval hcall hok).offset_ne hlt
          simp only [if_neg hne, ih d hlt]

theorem eval_manyTill_congr (hcall : ∀ n c, (call n c).AheadOf c) {stop stop' : Parser N R β}
    (hp : Consumes call source p) (heq : ∀ c, p'.eval call source c = p.eval call source c)
    (hstop : ∀ c, stop'.eval call source c = stop.eval call source c) (c : Cursor) :
    (p'.manyTill stop').eval call source c = (p.manyTill stop).eval call source c := by
  induction c using Cursor.forward_induction with
  | step c ih =>
      rw [eval_manyTill hcall, eval_manyTill hcall, heq, hstop]
      cases stop.eval call source c with
      | ok b d => rfl
      | interrupted why => rfl
      | fail f =>
          cases hok : p.eval call source c with
          | fail g => rfl
          | interrupted why => rfl
          | ok a d =>
              have hlt := hp c a d hok
              have hne := (reaches_of_eval hcall hok).offset_ne hlt
              simp only [if_neg hne, ih d hlt]

theorem Consumes.congr (hp : Consumes call source p)
    (heq : ∀ c, p'.eval call source c = p.eval call source c) : Consumes call source p' :=
  fun c a d hok => hp c a d (heq c ▸ hok)

/-! ## Reordered parsers -/

/-- A reordered parser does the same, and is unambiguous as well. -/
theorem Reorders.sound (hcall : ∀ n c, (call n c).AheadOf c) (h : Reorders p p')
    (hp : p.Unambiguous call source) :
    (∀ c, p'.eval call source c = p.eval call source c) ∧ p'.Unambiguous call source := by
  induction h with
  | refl p => exact ⟨fun _ => rfl, hp⟩
  | trans _ _ ih ih' =>
      obtain ⟨heq, hq⟩ := ih hp
      obtain ⟨heq', hr⟩ := ih' hq
      exact ⟨fun c => (heq' c).trans (heq c), hr⟩
  | @choice _ ps qs hperm =>
      obtain ⟨hex, hall⟩ := unambiguous_choice.mp hp
      refine ⟨fun c => (eval_choice_perm hcall hperm (hex.imp fun h => h c)).symm,
        unambiguous_choice.mpr ⟨?_, ?_⟩⟩
      · exact hex.perm hperm fun h => symm h
      · exact fun q hq => hall q (hperm.mem_iff.mpr hq)
  | perm hperm =>
      obtain ⟨hex, hall⟩ := unambiguous_foldl.mp hp
      refine ⟨fun c => (eval_foldl_perm hcall hperm (hex.imp fun h => h c)).symm,
        unambiguous_foldl.mpr ⟨?_, ?_⟩⟩
      · exact hex.perm hperm fun h => symm h
      · exact fun q hq => hall q (hperm.mem_iff.mpr hq)
  | @alternatives _ n p p' ps ps' _ _ ih ihs =>
      obtain ⟨hex, hp, hps⟩ := hp
      obtain ⟨heq, hp'⟩ := ih hp
      refine ⟨fun c => ?_, ?_, hp', fun i => (ihs i (hps i)).2⟩
      · rw [Parser.eval, Parser.eval, heq]
        simp only [fun i => (ihs i (hps i)).1 c]
      · -- What excludes what is seen from what the alternatives do.
        have hsame : (p' :: List.ofFn ps').map (fun q => q.eval call source) =
            (p :: List.ofFn ps).map fun q => q.eval call source := by
          simp only [List.map_cons, List.map_ofFn, funext heq, Function.comp_def,
            fun i => funext (ihs i (hps i)).1]
        have hpairs : ((p' :: List.ofFn ps').map fun q => q.eval call source).Pairwise
            fun r s => ∀ c, (r c).Excludes (s c) := hsame ▸ List.pairwise_map.mpr hex
        have hexcludes := List.pairwise_map.mp hpairs
        exact hexcludes
  | refine judge _ ih =>
      obtain ⟨heq, hp'⟩ := ih hp
      exact ⟨fun c => by rw [Parser.eval, Parser.eval, heq], hp'⟩
  | @bind _ _ p p' next next' _ _ ih ihnext =>
      obtain ⟨hp, hnext⟩ := hp
      obtain ⟨heq, hp'⟩ := ih hp
      refine ⟨fun c => ?_, hp', fun c a d hok => ?_⟩
      · rw [Parser.eval, Parser.eval, heq]
        cases hok : p.eval call source c with
        | ok a d => exact (ihnext a (hnext c a d hok)).1 d
        | fail f => rfl
        | interrupted why => rfl
      · exact (ihnext a (hnext c a d (heq c ▸ hok))).2
  | many _ ih =>
      obtain ⟨hconsumes, hp⟩ := hp
      obtain ⟨heq, hp'⟩ := ih hp
      exact ⟨eval_many_congr hcall hconsumes heq, hconsumes.congr heq, hp'⟩
  | manyTill _ _ ih ihstop =>
      obtain ⟨hconsumes, hp, hs⟩ := hp
      obtain ⟨heq, hp'⟩ := ih hp
      obtain ⟨heqs, hs'⟩ := ihstop hs
      exact ⟨eval_manyTill_congr hcall hconsumes heq heqs, hconsumes.congr heq, hp', hs'⟩
  | located _ ih =>
      obtain ⟨heq, hp'⟩ := ih hp
      exact ⟨fun c => by rw [Parser.eval, Parser.eval, heq], hp'⟩
  | named _ _ _ ih => exact ih hp

end Parser

end PieSyntax
