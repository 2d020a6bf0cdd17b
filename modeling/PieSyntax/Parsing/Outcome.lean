import PieSyntax.Diagnostic.Failure
import PieSyntax.Parsing.Cursor

/-!
# Outcomes of running a parser

A run ends in one of three ways.  It succeeds with a value and the cursor after it; it fails, and
then another alternative may be tried; or it is interrupted, and then nothing else is tried: a
repetition stands still, productions are nested beyond the ceiling, a numeral is too long to be
read, two halves of a bracket lie in different sources, or whoever judges a value that was read
breaks off for a reason of their own.
-/

namespace PieSyntax

/-- The two forms of repetition. -/
inductive Repetition where
  | many
  | manyTill
  deriving DecidableEq, Repr

/-- How a repetition is written in messages and parser names. -/
def Repetition.word : Repetition → String
  | .many => "rep"
  | .manyTill => "many_till"

/-- What ends a run at once, whatever alternatives are left. -/
inductive Interruption where
  /-- The repeated parser succeeded at `pos` without reading anything. -/
  | stalled (loop : Repetition) (label : String) (pos : Position)
  /-- More productions are active than the ceiling allows. -/
  | tooDeep
  /-- A numeral has more digits than may be read. -/
  | numeralTooLong (e : NumeralTooLong)
  /-- A span would start in one source and end in another. -/
  | sourceMismatch (mismatch : SourceMismatch)
  /-- The judge of a value gave up, for the reason stated. -/
  | refused (reason : String)

/-- The message for a run that was broken off. -/
def Interruption.message : Interruption → String
  | .stalled loop label pos =>
    loop.word ++ "() over Parser(" ++ label ++ ") succeeded without consuming input at "
      ++ pos.toText
  | .tooDeep => "expression nested too deeply"
  | .numeralTooLong e => e.message
  | .sourceMismatch mismatch => mismatch.message
  | .refused reason => reason

/-- How a run of a parser ends. -/
inductive Outcome (α : Type) where
  | ok (value : α) (next : Cursor)
  | fail (failure : Failure)
  | interrupted (why : Interruption)

namespace Outcome

variable {α β : Type}

/-- The failure with the given payload where the cursor stands. -/
def failAt (c : Cursor) (e : Expectation) : Outcome α := .fail ⟨c.pos, e⟩

/-- Goes on from a success; any other end stays as it is. -/
@[inline] def andThen (o : Outcome α) (k : α → Cursor → Outcome β) : Outcome β :=
  match o with
  | .ok a next => k a next
  | .fail f => .fail f
  | .interrupted why => .interrupted why

@[simp] theorem andThen_ok (a : α) (next : Cursor) (k : α → Cursor → Outcome β) :
    (Outcome.ok a next).andThen k = k a next := rfl

@[simp] theorem andThen_fail (f : Failure) (k : α → Cursor → Outcome β) :
    (Outcome.fail f : Outcome α).andThen k = .fail f := rfl

@[simp] theorem andThen_interrupted (why : Interruption) (k : α → Cursor → Outcome β) :
    (Outcome.interrupted why : Outcome α).andThen k = .interrupted why := rfl

/-- Tries a second parse after a failure, from where the first one started.  When both fail, the
furthest failure is kept. -/
@[inline] def orElse (o : Outcome α) (k : Unit → Outcome α) : Outcome α :=
  match o with
  | .fail f =>
    match k () with
    | .fail g => .fail (f.furthest g)
    | o => o
  | o => o

/-- Makes attempts in order until one does not fail.  `error` is the furthest failure so far. -/
def tryRest (error : Failure) : List (Unit → Outcome α) → Outcome α
  | [] => .fail error
  | attempt :: rest =>
    match attempt () with
    | .fail e => tryRest (error.furthest e) rest
    | o => o

/-- Makes further attempts after a failure, all from where the first one started. -/
def choose (first : Outcome α) (rest : List (Unit → Outcome α)) : Outcome α :=
  match first with
  | .fail e => tryRest e rest
  | o => o

theorem choose_cons (o : Outcome α) (k : Unit → Outcome α) (ks : List (Unit → Outcome α)) :
    o.choose (k :: ks) = (o.orElse k).choose ks := by
  cases o with
  | ok a d => rfl
  | interrupted why => rfl
  | fail f => cases hk : k () <;> simp only [Outcome.choose, Outcome.tryRest, Outcome.orElse, hk]

/-- Going through attempts in order comes to the same as two at a time, from the left. -/
theorem choose_eq_foldl (o : Outcome α) (ks : List (Unit → Outcome α)) :
    o.choose ks = ks.foldl orElse o := by
  induction ks generalizing o with
  | nil => cases o <;> rfl
  | cons k ks ih => rw [choose_cons, ih, List.foldl_cons]

/-- What a second attempt keeps of two outcomes is kept by any number of attempts. -/
theorem choose_rel {rel : Outcome α → Outcome β → Prop}
    (orElse : ∀ o o' k k', rel o o' → rel (k ()) (k' ()) → rel (o.orElse k) (o'.orElse k')) {n : Nat}
    {o : Outcome α} {o' : Outcome β} {f : Fin n → Unit → Outcome α} {f' : Fin n → Unit → Outcome β}
    (ho : rel o o') (h : ∀ i, rel (f i ()) (f' i ())) :
    rel (o.choose (List.ofFn f)) (o'.choose (List.ofFn f')) := by
  induction n generalizing o o' with
  | zero => rwa [List.ofFn_zero, List.ofFn_zero, choose_eq_foldl, choose_eq_foldl]
  | succ n ih =>
      rw [List.ofFn_succ, List.ofFn_succ, choose_cons, choose_cons]
      exact ih (orElse _ _ _ _ ho (h 0)) fun i => h i.succ

/-- What a second attempt keeps of an outcome is kept by any number of attempts. -/
theorem choose_induction {motive : Outcome α → Prop}
    (orElse : ∀ o k, motive o → motive (k ()) → motive (o.orElse k)) {n : Nat} {o : Outcome α}
    {f : Fin n → Unit → Outcome α} (ho : motive o) (h : ∀ i, motive (f i ())) :
    motive (o.choose (List.ofFn f)) := by
  induction n generalizing o with
  | zero => rwa [List.ofFn_zero, choose_eq_foldl]
  | succ n ih =>
      rw [List.ofFn_succ, choose_cons]
      exact ih (orElse _ _ ho (h 0)) fun i => h i.succ

/-! ## How an outcome came about -/

theorem andThen_eq_ok {o : Outcome α} {k : α → Cursor → Outcome β} {b : β} {e : Cursor}
    (h : o.andThen k = .ok b e) : ∃ a d, o = .ok a d ∧ k a d = .ok b e := by
  cases o with
  | ok a d => exact ⟨a, d, rfl, h⟩
  | fail f => cases h
  | interrupted why => cases h

theorem andThen_eq_fail {o : Outcome α} {k : α → Cursor → Outcome β} {f : Failure}
    (h : o.andThen k = .fail f) : o = .fail f ∨ ∃ a d, o = .ok a d ∧ k a d = .fail f := by
  cases o with
  | ok a d => exact Or.inr ⟨a, d, rfl, h⟩
  | fail g =>
      cases h
      exact Or.inl rfl
  | interrupted why => cases h

theorem andThen_eq_interrupted {o : Outcome α} {k : α → Cursor → Outcome β} {why : Interruption}
    (h : o.andThen k = .interrupted why) :
    o = .interrupted why ∨ ∃ a d, o = .ok a d ∧ k a d = .interrupted why := by
  cases o with
  | ok a d => exact Or.inr ⟨a, d, rfl, h⟩
  | fail f => cases h
  | interrupted why' =>
      cases h
      exact Or.inl rfl

theorem orElse_eq_ok {o : Outcome α} {k : Unit → Outcome α} {a : α} {d : Cursor}
    (h : o.orElse k = .ok a d) : o = .ok a d ∨ ((∃ f, o = .fail f) ∧ k () = .ok a d) := by
  cases o with
  | ok b e => exact Or.inl h
  | interrupted why => cases h
  | fail f =>
      unfold Outcome.orElse at h
      cases hk : k () with
      | ok b e => rw [hk] at h; exact Or.inr ⟨⟨f, rfl⟩, h⟩
      | fail g => rw [hk] at h; cases h
      | interrupted why => rw [hk] at h; cases h

theorem orElse_eq_fail {o : Outcome α} {k : Unit → Outcome α} {f : Failure}
    (h : o.orElse k = .fail f) : ∃ g₁ g₂, o = .fail g₁ ∧ k () = .fail g₂ ∧ f = g₁.furthest g₂ := by
  cases o with
  | ok a d => cases h
  | interrupted why => cases h
  | fail g₁ =>
      unfold Outcome.orElse at h
      cases hk : k () with
      | ok a d => rw [hk] at h; cases h
      | interrupted why => rw [hk] at h; cases h
      | fail g₂ =>
          rw [hk] at h
          cases h
          exact ⟨g₁, g₂, rfl, rfl, rfl⟩

theorem orElse_eq_interrupted {o : Outcome α} {k : Unit → Outcome α} {why : Interruption}
    (h : o.orElse k = .interrupted why) :
    o = .interrupted why ∨ ((∃ f, o = .fail f) ∧ k () = .interrupted why) := by
  cases o with
  | ok a d => cases h
  | interrupted why' =>
      cases h
      exact Or.inl rfl
  | fail f =>
      unfold Outcome.orElse at h
      cases hk : k () with
      | ok a d => rw [hk] at h; cases h
      | fail g => rw [hk] at h; cases h
      | interrupted why' =>
          rw [hk] at h
          cases h
          exact Or.inr ⟨⟨f, rfl⟩, rfl⟩

section

variable {n : Nat} {o : Outcome α} {f : Fin n → Unit → Outcome α}

theorem choose_of_ne_fail (h : ∀ e, o ≠ .fail e) (ks : List (Unit → Outcome α)) :
    o.choose ks = o := by
  cases o with
  | ok a d => rfl
  | interrupted why => rfl
  | fail e => exact absurd rfl (h e)

/-- The first attempt that does not fail decides. -/
theorem choose_eq_of_fails {i : Fin n} (ho : ∃ e, o = .fail e)
    (hs : ∀ j < i, ∃ e, f j () = .fail e) (hi : ∀ e, f i () ≠ .fail e) :
    o.choose (List.ofFn f) = f i () := by
  obtain ⟨e, rfl⟩ := ho
  induction n generalizing e with
  | zero => exact i.elim0
  | succ n ih =>
      rw [List.ofFn_succ, choose_cons]
      cases i using Fin.cases with
      | zero =>
          have hnext : (Outcome.fail e).orElse (f 0) = f 0 () := by
            unfold Outcome.orElse
            cases h : f 0 () with
            | ok a d => rfl
            | interrupted why => rfl
            | fail g => exact absurd h (hi g)
          rw [hnext, choose_of_ne_fail hi]
      | succ i =>
          obtain ⟨g, hg⟩ := hs 0 (Fin.succ_pos i)
          have hnext : (Outcome.fail e).orElse (f 0) = .fail (e.furthest g) := by
            simp only [Outcome.orElse, hg]
          rw [hnext]
          exact ih (fun j hj => hs j.succ (Fin.succ_lt_succ_iff.mpr hj)) hi _

theorem choose_eq_interrupted {why : Interruption}
    (h : o.choose (List.ofFn f) = .interrupted why) :
    o = .interrupted why ∨ (∃ e, o = .fail e) ∧
      ∃ i, f i () = .interrupted why ∧ ∀ j < i, ∃ e, f j () = .fail e := by
  induction n generalizing o with
  | zero =>
      rw [List.ofFn_zero, choose_eq_foldl] at h
      exact Or.inl h
  | succ n ih =>
      rw [List.ofFn_succ, choose_cons] at h
      rcases ih h with hfirst | ⟨⟨e, hfirst⟩, i, hi, hs⟩
      · rcases orElse_eq_interrupted hfirst with ho | ⟨ho, hzero⟩
        · exact Or.inl ho
        · exact Or.inr ⟨ho, 0, hzero, fun j hj => absurd hj (Fin.not_lt_zero j)⟩
      · obtain ⟨g₁, g₂, ho, hzero, -⟩ := orElse_eq_fail hfirst
        refine Or.inr ⟨⟨g₁, ho⟩, i.succ, hi, fun j hj => ?_⟩
        cases j using Fin.cases with
        | zero => exact ⟨g₂, hzero⟩
        | succ j => exact hs j (Fin.succ_lt_succ_iff.mp hj)

end

end Outcome

end PieSyntax
