import PieSyntax.Proofs.WellFormed
import PieSyntax.Sample.Program

/-!
# What is drawn

A generator is run on a tape, and whatever the tape, some things can be said of the value: a number
lies between its bounds, a choice is one of those given.  `Draw.Yields` says this of a draw, and has a
lemma for each way of building one, so what a generator makes is told from how it is built.

Names are drawn until one is not reserved.  Such a loop might go on for ever; it ends because every
word takes a number from the tape, and because the word that is drawn from an empty tape is no reserved
one.  `NameLoop` is the loop, without the fuel that bounds it.

## Main results

* `Draw.Yields.bind`, `Draw.yields_oneOf`, `Draw.Yields.times` — what draws yield.
* `nameLoop_name` — the loop over words ends, on every tape.
* `yields_name` — what it ends with is a name.
-/

namespace PieSyntax

namespace Sample

variable {α β : Type}

namespace Draw

/-- Whatever the tape, the value that is drawn has the property. -/
def Yields (d : Draw α) (P : α → Prop) : Prop := ∀ tape, P (d tape).1

variable {d : Draw α} {P : α → Prop} {Q : β → Prop}

theorem yields_pure {a : α} (h : P a) : Yields (pure a) P := fun _ => h

theorem Yields.bind {next : α → Draw β} (h : Yields d P) (hnext : ∀ a, P a → Yields (next a) Q) :
    Yields (d >>= next) Q :=
  fun tape => hnext (d tape).1 (h tape) (d tape).2

theorem Yields.mono {P' : α → Prop} (h : Yields d P) (himp : ∀ a, P a → P' a) : Yields d P' :=
  fun tape => himp _ (h tape)

theorem yields_ite {c : Prop} [Decidable c] {d' : Draw α} (h : Yields d P) (h' : Yields d' P) :
    Yields (if c then d else d') P := by
  split
  · exact h
  · exact h'

theorem yields_below {n : Nat} (h : 0 < n) : Yields (below n) (· < n) := by
  intro tape
  show ((next tape).1 % (n : Int)).toNat < n
  have hlt := Int.emod_lt_of_pos (next tape).1 (Int.natCast_pos.mpr h)
  omega

theorem yields_between {low high : Nat} (h : low ≤ high) :
    Yields (between low high) fun n => low ≤ n ∧ n ≤ high :=
  (yields_below (Nat.succ_pos (high - low))).bind fun k hk => yields_pure (by omega)

/-- A choice among given values is one of them. -/
theorem yields_oneOf {values : List α} (h : values ≠ []) (fallback : α) :
    Yields (oneOf values fallback) (· ∈ values) := by
  refine (yields_below (List.length_pos_iff.mpr h)).bind fun i hi => yields_pure ?_
  rw [List.getD_eq_getElem?_getD, List.getElem?_eq_getElem hi, Option.getD_some]
  exact List.getElem_mem hi

theorem Yields.times (h : Yields d P) (n : Nat) :
    Yields (d.times n) fun as => as.length = n ∧ ∀ a ∈ as, P a := by
  induction n with
  | zero => exact yields_pure ⟨rfl, by simp⟩
  | succ n ih =>
      refine h.bind fun a ha => ih.bind fun as has => yields_pure ⟨?_, ?_⟩
      · rw [List.length_cons, has.1]
      · exact List.forall_mem_cons.mpr ⟨ha, has.2⟩

/-! ## The tape -/

/-- No number is put back on the tape. -/
def Shortens (d : Draw α) : Prop := ∀ tape, (d tape).2.rest.length ≤ tape.rest.length

theorem length_rest_next (tape : Tape) : (next tape).2.rest.length = tape.rest.length - 1 := by
  unfold next
  cases h : tape.rest with
  | nil => rfl
  | cons t rest => rfl

theorem shortens_next : Shortens next := by
  intro tape
  rw [length_rest_next]
  omega

theorem shortens_pure (a : α) : Shortens (pure a) := fun _ => Nat.le_refl _

theorem Shortens.bind {next : α → Draw β} (h : Shortens d) (hnext : ∀ a, Shortens (next a)) :
    Shortens (d >>= next) :=
  fun tape => Nat.le_trans (hnext (d tape).1 (d tape).2) (h tape)

theorem Shortens.times (h : Shortens d) (n : Nat) : Shortens (d.times n) := by
  induction n with
  | zero => exact shortens_pure _
  | succ n ih => exact h.bind fun _ => ih.bind fun _ => shortens_pure _

theorem shortens_below (n : Nat) : Shortens (below n) :=
  shortens_next.bind fun _ => shortens_pure _

theorem shortens_oneOf (values : List α) (fallback : α) : Shortens (oneOf values fallback) :=
  (shortens_below _).bind fun _ => shortens_pure _

end Draw

open Draw

/-! ## Words -/

theorem yields_word : Yields word IsWord := by
  refine (yields_oneOf (by decide) 'a').bind fun first hmem =>
    (yields_between (by omega)).bind fun length _ =>
      ((yields_oneOf (by decide) 'a').times length).bind fun later hmem' => yields_pure ?_
  have hrun : later.takeWhile isSubsequent = later :=
    List.takeWhile_eq_self_iff.mpr fun ch hch => isSubsequent_of_mem_laterChars ch (hmem'.2 ch hch)
  rw [IsWord, wordPrefix_of_isInitial (isInitial_of_mem_firstChars first hmem), hrun]

/-- A word takes a number at least. -/
theorem length_rest_word (tape : Tape) : (word tape).2.rest.length ≤ tape.rest.length - 1 := by
  have hlater : Shortens (do
      let length ← between 0 8
      let later ← (oneOf laterChars 'a').times length
      return ((oneOf firstChars 'a' tape).1 :: later)) :=
    ((shortens_below _).bind fun _ => shortens_pure _).bind fun _ =>
      ((shortens_oneOf _ _).times _).bind fun _ => shortens_pure _
  rw [← length_rest_next]
  exact hlater (oneOf firstChars 'a' tape).2

theorem word_of_nil {tape : Tape} (h : tape.rest = []) : (word tape).1 = ['a'] := by
  obtain ⟨rest, used⟩ := tape
  obtain rfl : rest = [] := h
  rfl

/-! ## Names -/

/-- Words are drawn until one is not reserved. -/
inductive NameLoop : Tape → Text → Tape → Prop where
  | done {tape : Tape} (h : (word tape).1 ∉ reserved) : NameLoop tape (word tape).1 (word tape).2
  | again {tape tape' : Tape} {name : Text} (h : (word tape).1 ∈ reserved)
    (hrest : NameLoop (word tape).2 name tape') : NameLoop tape name tape'

theorem nameLoop_freeWord {fuel : List Int} {tape : Tape} (h : tape.rest.length ≤ fuel.length) :
    NameLoop tape (freeWord fuel tape).1 (freeWord fuel tape).2 := by
  have hlast : ∀ {tape : Tape}, tape.rest = [] → (word tape).1 ∉ reserved := by
    intro tape hnil
    rw [word_of_nil hnil]
    decide
  induction fuel generalizing tape with
  | nil => exact .done (hlast (List.eq_nil_of_length_eq_zero (Nat.le_zero.mp h)))
  | cons t fuel ih =>
      have hstep : freeWord (t :: fuel) tape =
          (if reserved.contains (word tape).1 then freeWord fuel else pure (word tape).1)
            (word tape).2 := rfl
      rw [hstep]
      by_cases hreserved : (word tape).1 ∈ reserved
      · have hne : tape.rest ≠ [] := fun hnil => hlast hnil hreserved
        have hpos := List.length_pos_iff.mpr hne
        have hlen := length_rest_word tape
        rw [if_pos (List.contains_iff_mem.mpr hreserved)]
        rw [List.length_cons] at h
        exact .again hreserved (ih (by omega))
      · rw [if_neg (mt List.contains_iff_mem.mp hreserved)]
        exact .done hreserved

/-- The loop over words ends, on every tape, and with what is drawn as a name. -/
theorem nameLoop_name (tape : Tape) : NameLoop tape (name tape).1 (name tape).2 :=
  nameLoop_freeWord (Nat.le_refl _)

/-- A loop ends in one way only. -/
theorem NameLoop.unique {tape tape₁ tape₂ : Tape} {name₁ name₂ : Text}
    (h₁ : NameLoop tape name₁ tape₁) (h₂ : NameLoop tape name₂ tape₂) :
    name₁ = name₂ ∧ tape₁ = tape₂ := by
  induction h₁ with
  | done h =>
      cases h₂ with
      | done _ => exact ⟨rfl, rfl⟩
      | again h' _ => exact absurd h' h
  | again h hrest ih =>
      cases h₂ with
      | done h' => exact absurd h h'
      | again _ hrest' => exact ih hrest'

theorem NameLoop.isName {tape tape' : Tape} {name : Text} (h : NameLoop tape name tape') :
    IsName name := by
  induction h with
  | @done tape h => exact ⟨yields_word tape, by simpa [Grammar.isFreeName] using h⟩
  | again _ _ ih => exact ih

theorem yields_name : Yields name IsName := fun tape => (nameLoop_name tape).isName

end Sample

end PieSyntax
