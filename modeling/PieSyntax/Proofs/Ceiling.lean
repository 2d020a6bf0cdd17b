import PieSyntax.Parsing.Eval

/-!
# The ceiling on nesting only cuts runs off

A run under a ceiling is either cut off because it is nested too deeply, or it is the run under
every higher ceiling.  So what a parser does can be found out with as much room as a proof needs,
and carried back to the ceiling of the reader.

## Main results

* `Rules.run_upTo` — under a higher ceiling a run that was not cut off is the same.
-/

namespace PieSyntax

namespace Outcome

variable {α β : Type}

/-- The first outcome is cut off, or it is the second one. -/
def UpTo (o o' : Outcome α) : Prop := o = .interrupted .tooDeep ∨ o = o'

theorem UpTo.refl (o : Outcome α) : o.UpTo o := Or.inr rfl

theorem UpTo.eq {o o' : Outcome α} (h : o.UpTo o') (hdeep : o ≠ .interrupted .tooDeep) :
    o = o' := by
  rcases h with h | h
  · exact absurd h hdeep
  · exact h

theorem UpTo.andThen {o o' : Outcome α} {k k' : α → Cursor → Outcome β} (ho : o.UpTo o')
    (hk : ∀ a d, (k a d).UpTo (k' a d)) : (o.andThen k).UpTo (o'.andThen k') := by
  rcases ho with rfl | rfl
  · exact Or.inl rfl
  · cases o with
    | ok a d => exact hk a d
    | fail f => exact UpTo.refl _
    | interrupted why => exact UpTo.refl _

theorem UpTo.orElse {o o' : Outcome α} {k k' : Unit → Outcome α} (ho : o.UpTo o')
    (hk : (k ()).UpTo (k' ())) : (o.orElse k).UpTo (o'.orElse k') := by
  rcases ho with rfl | rfl
  · exact Or.inl rfl
  · cases o with
    | ok a d => exact UpTo.refl _
    | interrupted why => exact UpTo.refl _
    | fail f =>
        rcases hk with hk | hk
        · exact Or.inl (by simp [Outcome.orElse, hk])
        · exact Or.inr (by simp [Outcome.orElse, hk])

theorem manyLoop_upTo {item item' : Cursor → Outcome α} (label : Unit → String)
    (hitem : ∀ c, (item c).UpTo (item' c)) (fuel : Text) (c : Cursor) (done : List α) :
    (manyLoop item label fuel c done).UpTo (manyLoop item' label fuel c done) := by
  induction fuel generalizing c done with
  | nil =>
      unfold manyLoop
      rcases hitem c with h | h
      · exact Or.inl (by rw [h])
      · exact Or.inr (by rw [h])
  | cons ch fuel ih =>
      unfold manyLoop
      rcases hitem c with h | h
      · exact Or.inl (by rw [h])
      · rw [h]
        cases item' c with
        | fail f => exact UpTo.refl _
        | interrupted why => exact UpTo.refl _
        | ok a d =>
            by_cases hd : d.offset = c.offset
            · simp [hd, UpTo]
            · simpa [hd] using ih d (a :: done)

theorem manyTillLoop_upTo {item item' : Cursor → Outcome α} {stop stop' : Cursor → Outcome β}
    (label : Unit → String) (hitem : ∀ c, (item c).UpTo (item' c))
    (hstop : ∀ c, (stop c).UpTo (stop' c)) (fuel : Text) (c : Cursor) (done : List α) :
    (manyTillLoop item stop label fuel c done).UpTo
      (manyTillLoop item' stop' label fuel c done) := by
  induction fuel generalizing c done with
  | nil =>
      unfold manyTillLoop
      rcases hstop c with hs | hs
      · exact Or.inl (by rw [hs])
      · rw [hs]
        cases stop' c with
        | ok b d => exact UpTo.refl _
        | interrupted why => exact UpTo.refl _
        | fail f =>
            rcases hitem c with h | h
            · exact Or.inl (by rw [h])
            · exact Or.inr (by rw [h])
  | cons ch fuel ih =>
      unfold manyTillLoop
      rcases hstop c with hs | hs
      · exact Or.inl (by rw [hs])
      · rw [hs]
        cases stop' c with
        | ok b d => exact UpTo.refl _
        | interrupted why => exact UpTo.refl _
        | fail f =>
            rcases hitem c with h | h
            · exact Or.inl (by rw [h])
            · rw [h]
              cases item' c with
              | fail g => exact UpTo.refl _
              | interrupted why => exact UpTo.refl _
              | ok a d =>
                  by_cases hd : d.offset = c.offset
                  · simp [hd, UpTo]
                  · simpa [hd] using ih d (a :: done)

end Outcome

variable {N : Type} {R : N → Type}

/-- A parser whose calls are cut off at most is itself cut off at most. -/
theorem Parser.eval_upTo {call call' : (n : N) → Cursor → Outcome (R n)}
    (hcall : ∀ n c, (call n c).UpTo (call' n c)) (source : String) {α : Type}
    (p : Parser N R α) (c : Cursor) :
    (p.eval call source c).UpTo (p.eval call' source c) := by
  induction p generalizing c with
  | pure a => exact Outcome.UpTo.refl _
  | fail e => exact Outcome.UpTo.refl _
  | anyChar => exact Outcome.UpTo.refl _
  | char ch => exact Outcome.UpTo.refl _
  | satisfy description test => exact Outcome.UpTo.refl _
  | text s => exact Outcome.UpTo.refl _
  | spanning test => exact Outcome.UpTo.refl _
  | eof => exact Outcome.UpTo.refl _
  | refine p judge ih => exact (ih c).andThen fun a d => Outcome.UpTo.refl _
  | bind p next ihp ihnext => exact (ihp c).andThen fun a d => ihnext a d
  | alternatives first rest ih ihs =>
      exact Outcome.choose_rel (fun _ _ _ _ => Outcome.UpTo.orElse) (ih c) fun i => ihs i c
  | many p ih => exact Outcome.manyLoop_upTo _ ih c.rest c []
  | manyTill item stop ihitem ihstop =>
      exact Outcome.manyTillLoop_upTo _ ihitem ihstop c.rest c []
  | located p ih => exact (ih c).andThen fun _ d => Outcome.UpTo.refl _
  | named name p ih => exact ih c
  | call n => exact hcall n c

theorem Rules.call_upTo (rules : Rules N R) (source : String) {low high : Nat} (h : low ≤ high)
    (n : N) (c : Cursor) : (rules.call source low n c).UpTo (rules.call source high n c) := by
  induction low generalizing high n c with
  | zero => exact Or.inl rfl
  | succ low ih =>
      obtain ⟨high, rfl⟩ : ∃ k, high = k + 1 := ⟨high - 1, by omega⟩
      exact Parser.eval_upTo (fun n c => ih (by omega) n c) source (rules n) c

/-- A run that was not cut off is the run under every higher ceiling. -/
theorem Rules.run_upTo (rules : Rules N R) {low high : Nat} (h : low ≤ high) (source : String)
    {α : Type} (p : Parser N R α) (c : Cursor) :
    (rules.run low source p c).UpTo (rules.run high source p c) :=
  Parser.eval_upTo (rules.call_upTo source h) source p c

end PieSyntax
