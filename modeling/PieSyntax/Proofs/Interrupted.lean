import PieSyntax.Proofs.Confined
import PieSyntax.Proofs.Subruns

/-!
# What breaks off a run

A run is broken off by one of the runs that it comes to: a call beyond the ceiling, a judge who gives
up, or a repetition whose parser has read nothing.  `Task.Raises` has one constructor for each.  No
alternative and no repetition goes on after an interruption, so whatever a run comes to that raises one
breaks off the whole run, and there is no other way in which it can be broken off.

Which tasks a run comes to can be told from its parser and the rules: they are parts of these.
`Parser.Throughout` says that something holds of all parts, whatever values are read on the way.

## Main results

* `Task.outcome_eq_interrupted_iff` — a run is broken off just when it comes to a task that raises the
  interruption.
* `Task.Visits.throughout` — what holds throughout a parser and the rules holds of all that is run.
-/

namespace PieSyntax

variable {N : Type} {R : N → Type}

namespace Task

variable (rules : Rules N R) (source : String)

/-- The task breaks off its run, and none of the runs that it starts is to blame. -/
inductive Raises : Task N R → Interruption → Prop where
  | tooDeep {n : N} {c : Cursor} : Raises ⟨0, .call n, c⟩ .tooDeep
  | judge {k : Nat} {α β : Type} {p : Parser N R α} {judge : α → Verdict β} {c d : Cursor} {a : α}
    {why : Interruption} (h : rules.run k source p c = .ok a d) (hj : judge a = .interrupt why) :
    Raises ⟨k, p.refine judge, c⟩ why
  | many {k : Nat} {α : Type} {p : Parser N R α} {c d : Cursor} {a : α}
    (h : rules.run k source p c = .ok a d) (hstill : d.offset = c.offset) :
    Raises ⟨k, p.many, c⟩ (.stalled .many p.label c.pos)
  | manyTill {k : Nat} {α β : Type} {p : Parser N R α} {stop : Parser N R β} {c d : Cursor}
    {f : Failure} {a : α} (hstop : rules.run k source stop c = .fail f)
    (h : rules.run k source p c = .ok a d) (hstill : d.offset = c.offset) :
    Raises ⟨k, p.manyTill stop, c⟩ (.stalled .manyTill p.label c.pos)

variable {rules source} {t u : Task N R} {why : Interruption}

/-! ## Nothing goes on after an interruption -/

theorem Raises.outcome_eq (h : Raises rules source t why) :
    t.outcome rules source = .interrupted why := by
  cases h with
  | tooDeep => rfl
  | @judge k α β p judge c d a why h hj =>
      have hp : p.eval (rules.call source k) source c = .ok a d := h
      show (p.refine judge).eval (rules.call source k) source c = _
      rw [Parser.eval, hp, Outcome.andThen_ok, hj]
  | @many k α p c d a h hstill =>
      have hp : p.eval (rules.call source k) source c = .ok a d := h
      show p.many.eval (rules.call source k) source c = _
      rw [Parser.eval_many (rules.call_reaches source k), hp]
      exact if_pos hstill
  | @manyTill k α β p stop c d f a hstop h hstill =>
      have hs : stop.eval (rules.call source k) source c = .fail f := hstop
      have hp : p.eval (rules.call source k) source c = .ok a d := h
      show (p.manyTill stop).eval (rules.call source k) source c = _
      rw [Parser.eval_manyTill (rules.call_reaches source k), hs]
      simp only [hp, hstill, if_true]

/-- A run that starts one that is broken off is broken off by it. -/
theorem Starts.interrupted (h : Starts rules source t u)
    (hu : u.outcome rules source = .interrupted why) :
    t.outcome rules source = .interrupted why := by
  have hcall := fun k => rules.call_reaches source k
  cases h with
  | refine => exact Parser.eval_refine_of_interrupted hu
  | bindFirst => exact Parser.eval_bind_of_interrupted hu
  | @bindNext k α β p next c d a h =>
      have hp : p.eval (rules.call source k) source c = .ok a d := h
      show (p.bind next).eval (rules.call source k) source c = _
      rw [Parser.eval, hp, Outcome.andThen_ok]
      exact hu
  | @firstAlternative k α n p ps c =>
      have hp : p.eval (rules.call source k) source c = .interrupted why := hu
      show (Parser.alternatives p ps).eval (rules.call source k) source c = _
      rw [Parser.eval_alternatives_of_ne_fail (by simp [hp]), hp]
  | @alternative k α n p ps c i h hs =>
      have hi : (ps i).eval (rules.call source k) source c = .interrupted why := hu
      show (Parser.alternatives p ps).eval (rules.call source k) source c = _
      rw [Parser.eval_alternatives_of_fails h hs (by simp [hi]), hi]
  | manyRound => exact Parser.eval_many_of_interrupted (hcall _) hu
  | @manyRest k α p c d a h hne =>
      have hp : p.eval (rules.call source k) source c = .ok a d := h
      have hrest : p.many.eval (rules.call source k) source d = .interrupted why := hu
      show p.many.eval (rules.call source k) source c = _
      rw [Parser.eval_many_next (hcall k) hp hne, hrest, Outcome.andThen_interrupted]
  | manyTillStop => exact Parser.eval_manyTill_of_interrupted (hcall _) hu
  | manyTillRound hstop => exact Parser.eval_manyTill_of_item_interrupted (hcall _) hstop hu
  | @manyTillRest k α β p stop c d f a hstop h hne =>
      have hs : stop.eval (rules.call source k) source c = .fail f := hstop
      have hp : p.eval (rules.call source k) source c = .ok a d := h
      have hrest : (p.manyTill stop).eval (rules.call source k) source d = .interrupted why := hu
      show (p.manyTill stop).eval (rules.call source k) source c = _
      rw [Parser.eval_manyTill_next (hcall k) hs hp hne, hrest, Outcome.andThen_interrupted]
  | located => exact Parser.eval_located_of_interrupted hu
  | named => exact hu
  | call => exact hu

/-- What a run comes to and is broken off breaks off the whole run. -/
theorem Visits.interrupted (h : Visits rules source t u)
    (hu : u.outcome rules source = .interrupted why) :
    t.outcome rules source = .interrupted why := by
  induction h using Relation.ReflTransGen.head_induction_on with
  | refl => exact hu
  | head hstarts _ ih => exact hstarts.interrupted ih

/-! ## Nothing else breaks off a run -/

/-- The run of the task comes to one that raises the interruption. -/
def Meets (rules : Rules N R) (source : String) (t : Task N R) (why : Interruption) : Prop :=
  ∃ u, Visits rules source t u ∧ Raises rules source u why

theorem Raises.meets (h : Raises rules source t why) : t.Meets rules source why :=
  ⟨t, .refl, h⟩

theorem Starts.meets (h : Starts rules source t u) (hu : u.Meets rules source why) :
    t.Meets rules source why := by
  obtain ⟨v, hvisits, hraises⟩ := hu
  exact ⟨v, hvisits.head h, hraises⟩

end Task

variable {rules : Rules N R} {source : String} {k : Nat} {why : Interruption} {α β : Type}

/-- If the calls that are broken off meet what breaks them off, so do all parsers. -/
theorem Parser.meets_of_eval
    (hcall : ∀ n c, rules.call source k n c = .interrupted why →
      Task.Meets rules source ⟨k, .call n, c⟩ why)
    (p : Parser N R α) (c : Cursor) (h : p.eval (rules.call source k) source c = .interrupted why) :
    Task.Meets rules source ⟨k, p, c⟩ why := by
  have hreaches := rules.call_reaches source k
  induction p generalizing c with
  | pure a => cases h
  | fail e => cases h
  | anyChar => exact absurd h (readChar_ne_interrupted _ _ c why)
  | char ch => exact absurd h (readChar_ne_interrupted _ _ c why)
  | satisfy description test => exact absurd h (readChar_ne_interrupted _ _ c why)
  | text s => exact absurd h (eval_text_ne_interrupted s c why)
  | spanning test => cases h
  | eof => exact absurd h (eval_eof_ne_interrupted c why)
  | refine p judge ih =>
      rw [Parser.eval] at h
      rcases Outcome.andThen_eq_interrupted h with hp | ⟨a, d, hp, hjudge⟩
      · exact Task.Starts.refine.meets (ih c hp)
      · cases hj : judge a with
        | accept b => rw [hj] at hjudge; cases hjudge
        | reject e => rw [hj] at hjudge; cases hjudge
        | interrupt why' =>
            rw [hj] at hjudge
            cases hjudge
            exact (Task.Raises.judge hp hj).meets
  | bind p next ihp ihnext =>
      rw [Parser.eval] at h
      rcases Outcome.andThen_eq_interrupted h with hp | ⟨a, d, hp, hnext⟩
      · exact Task.Starts.bindFirst.meets (ihp c hp)
      · exact (Task.Starts.bindNext hp).meets (ihnext a d hnext)
  | alternatives first rest ih ihs =>
      rw [Parser.eval] at h
      rcases Outcome.choose_eq_interrupted h with hfirst | ⟨hfail, i, hi, hfails⟩
      · exact Task.Starts.firstAlternative.meets (ih c hfirst)
      · exact (Task.Starts.alternative i hfail hfails).meets (ihs i c hi)
  | many p ih =>
      refine many_induction hreaches (motive := fun c o => o = .interrupted why →
        Task.Meets rules source ⟨k, p.many, c⟩ why) ?done ?broken ?still ?round c h
      case done => rintro c f - ⟨⟩
      case broken => rintro c why' hp ⟨⟩; exact Task.Starts.manyRound.meets (ih c hp)
      case still => rintro c d a hp hd ⟨⟩; exact (Task.Raises.many hp hd).meets
      case round =>
        intro c d a o hp hd hrounds h
        rcases Outcome.andThen_eq_interrupted h with hrest | ⟨as, e, -, hok⟩
        · exact (Task.Starts.manyRest hp hd).meets (hrounds hrest)
        · cases hok
  | manyTill p stop ih ihstop =>
      refine manyTill_induction hreaches (motive := fun c o => o = .interrupted why →
        Task.Meets rules source ⟨k, p.manyTill stop, c⟩ why)
        ?done ?unstopped ?stuck ?broken ?still ?round c h
      case done => rintro c d b - ⟨⟩
      case unstopped => rintro c why' hs ⟨⟩; exact Task.Starts.manyTillStop.meets (ihstop c hs)
      case stuck => rintro c f g - - ⟨⟩
      case broken => rintro c f why' hs hp ⟨⟩; exact (Task.Starts.manyTillRound hs).meets (ih c hp)
      case still => rintro c d f a hs hp hd ⟨⟩; exact (Task.Raises.manyTill hs hp hd).meets
      case round =>
        intro c d f a o hs hp hd hrounds h
        rcases Outcome.andThen_eq_interrupted h with hrest | ⟨as, e, -, hok⟩
        · exact (Task.Starts.manyTillRest hs hp hd).meets (hrounds hrest)
        · cases hok
  | located p ih =>
      rw [Parser.eval] at h
      rcases Outcome.andThen_eq_interrupted h with hp | ⟨a, d, -, hok⟩
      · exact Task.Starts.located.meets (ih c hp)
      · cases hok
  | named name p ih => exact Task.Starts.named.meets (ih c h)
  | call n => exact hcall n c h

/-- Calls that are broken off meet what breaks them off, under any ceiling. -/
theorem Rules.meets_of_call {n : N} {c : Cursor} (h : rules.call source k n c = .interrupted why) :
    Task.Meets rules source ⟨k, .call n, c⟩ why := by
  induction k generalizing n c with
  | zero =>
      cases h
      exact Task.Raises.tooDeep.meets
  | succ k ih => exact Task.Starts.call.meets (Parser.meets_of_eval (fun _ _ => ih) (rules n) c h)

/-- A run is broken off just when it comes to a task that raises the interruption. -/
theorem Task.outcome_eq_interrupted_iff {t : Task N R} :
    t.outcome rules source = .interrupted why ↔
      ∃ u, Visits rules source t u ∧ Raises rules source u why := by
  constructor
  · intro h
    exact Parser.meets_of_eval (fun _ _ => Rules.meets_of_call) t.parser t.cursor h
  · rintro ⟨u, hvisits, hraises⟩
    exact hvisits.interrupted hraises.outcome_eq

/-! ## What holds throughout a parser -/

/-- `P` holds of the parser and of all its parts, whatever values are read on the way. -/
def Parser.Throughout (rules : Rules N R) (source : String) (P : {α : Type} → Parser N R α → Prop)
    {α : Type} : Parser N R α → Prop
  | .pure a => P (.pure a)
  | @Parser.fail _ _ β e => P (.fail e : Parser N R β)
  | .anyChar => P .anyChar
  | .char ch => P (.char ch)
  | .satisfy description test => P (.satisfy description test)
  | .text s => P (.text s)
  | .spanning test => P (.spanning test)
  | .eof => P .eof
  | .refine p judge => P (.refine p judge) ∧ p.Throughout rules source P
  | .bind p next =>
    P (.bind p next) ∧ p.Throughout rules source P ∧
      ∀ k c a d, rules.run k source p c = .ok a d → (next a).Throughout rules source P
  | .alternatives first rest =>
    P (.alternatives first rest) ∧ first.Throughout rules source P ∧
      ∀ i, (rest i).Throughout rules source P
  | .many p => P (.many p) ∧ p.Throughout rules source P
  | .manyTill p stop =>
    P (.manyTill p stop) ∧ p.Throughout rules source P ∧ stop.Throughout rules source P
  | .located p => P (.located p) ∧ p.Throughout rules source P
  | .named name p => P (.named name p) ∧ p.Throughout rules source P
  | .call n => P (.call n)

section

variable {P : {α : Type} → Parser N R α → Prop}

theorem Parser.Throughout.self {p : Parser N R α} (h : p.Throughout rules source P) : P p := by
  cases p with
  | refine p judge => exact h.1
  | bind p next => exact h.1
  | alternatives first rest => exact h.1
  | many p => exact h.1
  | manyTill p stop => exact h.1
  | located p => exact h.1
  | named name p => exact h.1
  | _ => exact h

variable {t u : Task N R} (hrules : ∀ n, (rules n).Throughout rules source P)

include hrules

/-- What a run starts is a part of its parser or stands behind a nonterminal. -/
theorem Task.Starts.throughout (h : Starts rules source t u)
    (ht : t.parser.Throughout rules source P) : u.parser.Throughout rules source P := by
  cases h with
  | refine => exact ht.2
  | bindFirst => exact ht.2.1
  | bindNext h => exact ht.2.2 _ _ _ _ h
  | firstAlternative => exact ht.2.1
  | alternative i h hs => exact ht.2.2 i
  | manyRound => exact ht.2
  | manyRest h hne => exact ht
  | manyTillStop => exact ht.2.2
  | manyTillRound hstop => exact ht.2.1
  | manyTillRest hstop h hne => exact ht
  | located => exact ht.2
  | named => exact ht.2
  | @call k n c => exact hrules n

/-- What holds throughout a parser and the rules holds throughout all that its runs come to. -/
theorem Task.Visits.throughout (h : Visits rules source t u)
    (ht : t.parser.Throughout rules source P) : u.parser.Throughout rules source P := by
  induction h with
  | refl => exact ht
  | tail _ hstarts ih => exact hstarts.throughout hrules ih

end

end PieSyntax
