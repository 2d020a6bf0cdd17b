import PieSyntax.Proofs.Reach

/-!
# What a success says

When a run succeeds, the parts of the parser have succeeded: for each way of building a parser there
is one statement which says how; and where the part that is run first is broken off, so is the run.
For the repetitions there are equations that tell a run from the first round, without the fuel and
the values read so far that the loops carry along.

## Main results

* `Parser.eval_many`, `Parser.eval_manyTill` — a repetition is its first round and the others.
* `Parser.many_induction`, `Parser.manyTill_induction` — what each round keeps holds of a repetition.
* `Parser.eval_manyTill_ok` — its values, in order, and where each of them was read.
* `Parser.eval_choice_ok` — a choice that succeeds is one of its alternatives.
-/

namespace PieSyntax

namespace Outcome

variable {α β : Type}

/-- Rounds of `many` do not depend on the fuel, as long as it lasts, and add to what was read. -/
theorem manyLoop_eq_andThen {item : Cursor → Outcome α} (label : Unit → String)
    (hitem : ∀ c, (item c).AheadOf c) {fuel : Text} {c : Cursor}
    (hfuel : c.rest.length ≤ fuel.length) (done : List α) :
    manyLoop item label fuel c done =
      (manyLoop item label c.rest c []).andThen fun as d => .ok (done.reverse ++ as) d := by
  induction c using Cursor.forward_induction generalizing fuel done with
  | step c ih =>
      have hc := hitem c
      conv => lhs; unfold manyLoop
      conv => rhs; unfold manyLoop
      cases h : item c with
      | fail f => simp
      | interrupted why => simp
      | ok a d =>
          rw [h] at hc
          by_cases hd : d.offset = c.offset
          · simp [hd]
          · have hlt := Cursor.Reaches.rest_lt hc hd
            obtain ⟨x, t, hxt, hle⟩ := Cursor.Reaches.exists_cons hc hd
            rw [hxt, List.length_cons] at hfuel
            obtain ⟨y, s, rfl⟩ := List.exists_cons_of_length_pos (Nat.zero_lt_of_lt hfuel)
            rw [List.length_cons] at hfuel
            rw [hxt]
            simp only [hd, if_false]
            rw [ih d hlt (by omega) (a :: done), ih d hlt (by omega) [a]]
            cases manyLoop item label d.rest d [] with
            | ok as e => simp
            | fail f => rfl
            | interrupted why => rfl

/-- Rounds of `manyTill` do not depend on the fuel either. -/
theorem manyTillLoop_eq_andThen {item : Cursor → Outcome α} {stop : Cursor → Outcome β}
    (label : Unit → String) (hitem : ∀ c, (item c).AheadOf c) {fuel : Text} {c : Cursor}
    (hfuel : c.rest.length ≤ fuel.length) (done : List α) :
    manyTillLoop item stop label fuel c done =
      (manyTillLoop item stop label c.rest c []).andThen
        fun as d => .ok (done.reverse ++ as) d := by
  induction c using Cursor.forward_induction generalizing fuel done with
  | step c ih =>
      have hc := hitem c
      conv => lhs; unfold manyTillLoop
      conv => rhs; unfold manyTillLoop
      cases hs : stop c with
      | ok b e => simp
      | interrupted why => simp
      | fail g =>
          cases h : item c with
          | fail f => simp
          | interrupted why => simp
          | ok a d =>
              rw [h] at hc
              by_cases hd : d.offset = c.offset
              · simp [hd]
              · have hlt := Cursor.Reaches.rest_lt hc hd
                obtain ⟨x, t, hxt, hle⟩ := Cursor.Reaches.exists_cons hc hd
                rw [hxt, List.length_cons] at hfuel
                obtain ⟨y, s, rfl⟩ := List.exists_cons_of_length_pos (Nat.zero_lt_of_lt hfuel)
                rw [List.length_cons] at hfuel
                rw [hxt]
                simp only [hd, if_false]
                rw [ih d hlt (by omega) (a :: done), ih d hlt (by omega) [a]]
                cases manyTillLoop item stop label d.rest d [] with
                | ok as e => simp
                | fail f => rfl
                | interrupted why => rfl

end Outcome

/-! ## How a run ended -/

/-- The cursor after a run that succeeds. -/
def reached? {α : Type} : Outcome α → Option Cursor
  | .ok _ d => some d
  | _ => none

theorem exists_ok_of_reached? {α : Type} {o : Outcome α} {d : Cursor} (h : reached? o = some d) :
    ∃ a, o = .ok a d := by
  cases o with
  | ok a e => exact ⟨a, by rw [Option.some.inj h]⟩
  | fail f => cases h
  | interrupted why => cases h

/-- The value of a run that succeeds. -/
def value? {α : Type} : Outcome α → Option α
  | .ok a _ => some a
  | _ => none

theorem exists_ok_of_value? {α : Type} {o : Outcome α} (test : α → Bool)
    (h : (value? o).any test = true) : ∃ a d, o = .ok a d ∧ test a = true := by
  cases o with
  | ok a d => exact ⟨a, d, rfl, h⟩
  | fail f => cases h
  | interrupted why => cases h

/-- Where a run fails that does. -/
def failedAt? {α : Type} : Outcome α → Option Position
  | .fail f => some f.pos
  | _ => none

theorem exists_fail_of_failedAt? {α : Type} {o : Outcome α} {q : Position}
    (h : failedAt? o = some q) : ∃ f, o = .fail f ∧ f.pos = q := by
  cases o with
  | ok a d => cases h
  | fail f => exact ⟨f, rfl, Option.some.inj h⟩
  | interrupted why => cases h

namespace Parser

variable {N : Type} {R : N → Type} {call : (n : N) → Cursor → Outcome (R n)} {source : String}
variable {α β : Type}

/-! ## One part after the other -/

theorem eval_bind_ok {p : Parser N R α} {next : α → Parser N R β} {c e : Cursor} {b : β}
    (h : (p.bind next).eval call source c = .ok b e) :
    ∃ a d, p.eval call source c = .ok a d ∧ (next a).eval call source d = .ok b e := by
  unfold Parser.eval at h
  exact Outcome.andThen_eq_ok h

theorem eval_map_ok {p : Parser N R α} {f : α → β} {c d : Cursor} {b : β}
    (h : (p.map f).eval call source c = .ok b d) :
    ∃ a, p.eval call source c = .ok a d ∧ f a = b := by
  unfold Parser.map Parser.eval at h
  obtain ⟨a, d', hp, hk⟩ := Outcome.andThen_eq_ok h
  cases hk
  exact ⟨a, hp, rfl⟩

theorem eval_refine_ok {p : Parser N R α} {judge : α → Verdict β} {c d : Cursor} {b : β}
    (h : (p.refine judge).eval call source c = .ok b d) :
    ∃ a, p.eval call source c = .ok a d ∧ judge a = .accept b := by
  unfold Parser.eval at h
  obtain ⟨a, d', hp, hk⟩ := Outcome.andThen_eq_ok h
  cases hj : judge a with
  | accept b' => rw [hj] at hk; cases hk; exact ⟨a, hp, hj⟩
  | reject e => rw [hj] at hk; cases hk
  | interrupt why => rw [hj] at hk; cases hk

theorem eval_guard_ok {p : Parser N R α} {test : α → Bool} {x : Expectation} {c d : Cursor} {a : α}
    (h : (p.guard test x).eval call source c = .ok a d) :
    p.eval call source c = .ok a d ∧ test a = true := by
  obtain ⟨b, hp, hj⟩ := eval_refine_ok h
  by_cases ht : test b = true
  · simp only [ht, if_true, Verdict.accept.injEq] at hj
    exact ⟨hj ▸ hp, hj ▸ ht⟩
  · simp only [ht] at hj
    cases hj

theorem eval_andThen_ok {p : Parser N R α} {q : Parser N R β} {c e : Cursor} {b : β}
    (h : (p.andThen q).eval call source c = .ok b e) :
    ∃ a d, p.eval call source c = .ok a d ∧ q.eval call source d = .ok b e := by
  unfold Parser.andThen at h
  rw [Parser.eval] at h
  exact eval_bind_ok h

theorem eval_followedBy_ok {p : Parser N R α} {q : Parser N R β} {c e : Cursor} {a : α}
    (h : (p.followedBy q).eval call source c = .ok a e) :
    ∃ b d, p.eval call source c = .ok a d ∧ q.eval call source d = .ok b e := by
  unfold Parser.followedBy at h
  rw [Parser.eval] at h
  obtain ⟨a', d, hp, hq⟩ := eval_bind_ok h
  obtain ⟨b, hb, rfl⟩ := eval_map_ok hq
  exact ⟨b, d, hp, hb⟩

/-- What is to read the whole text fails where it leaves something over. -/
theorem eval_followedBy_eof (p : Parser N R α) (c : Cursor) :
    (p.followedBy .eof).eval call source c = (p.eval call source c).andThen fun a d =>
      if d.rest = [] then .ok a d else .fail ⟨d.pos, .endOfInput⟩ := by
  show (p.eval call source c).andThen
    (fun a d => (if d.atEnd then _ else _ : Outcome Unit).andThen _) = _
  cases p.eval call source c with
  | fail f => rfl
  | interrupted why => rfl
  | ok a d =>
      by_cases hd : d.rest = []
      · simp only [Outcome.andThen_ok, Cursor.atEnd, hd, List.isEmpty_nil, if_true]
      · simp only [Outcome.andThen_ok, Cursor.atEnd, List.isEmpty_iff, hd, if_false]
        rfl

theorem eval_followedBy_eof_eq_ok_iff {p : Parser N R α} {c d : Cursor} {a : α} :
    (p.followedBy .eof).eval call source c = .ok a d ↔
      p.eval call source c = .ok a d ∧ d.rest = [] := by
  rw [eval_followedBy_eof]
  constructor
  · intro h
    obtain ⟨a', d', hp, hend⟩ := Outcome.andThen_eq_ok h
    by_cases hd : d'.rest = []
    · rw [if_pos hd] at hend
      cases hend
      exact ⟨hp, hd⟩
    · rw [if_neg hd] at hend
      cases hend
  · rintro ⟨hp, hd⟩
    rw [hp, Outcome.andThen_ok, if_pos hd]

theorem eval_located_ok {p : Parser N R α} {c d : Cursor} {x : Located α}
    (h : p.located.eval call source c = .ok x d) :
    p.eval call source c = .ok x.value d ∧ x.loc = ⟨source, c.pos, d.pos⟩ := by
  unfold Parser.eval at h
  obtain ⟨a, d', hp, hk⟩ := Outcome.andThen_eq_ok h
  cases hk
  exact ⟨hp, rfl⟩

/-! ## Choices -/

theorem eval_orElse_ok {p q : Parser N R α} {c d : Cursor} {a : α}
    (h : (p.orElse q).eval call source c = .ok a d) :
    p.eval call source c = .ok a d ∨ q.eval call source c = .ok a d := by
  rw [eval_orElse] at h
  rcases Outcome.orElse_eq_ok h with h | ⟨-, h⟩
  · exact Or.inl h
  · exact Or.inr h

theorem eval_describe_ok {p : Parser N R α} {description : String} {c d : Cursor} {a : α}
    (h : (p.describe description).eval call source c = .ok a d) :
    p.eval call source c = .ok a d := by
  unfold Parser.describe at h
  rw [Parser.eval] at h
  rcases eval_orElse_ok h with h | h
  · exact h
  · cases h

/-- A choice that succeeds is one of its alternatives. -/
theorem eval_choice_ok {ps : List (Parser N R α)} {c d : Cursor} {a : α}
    (h : (choice ps).eval call source c = .ok a d) : ∃ p ∈ ps, p.eval call source c = .ok a d := by
  refine choice_induction call source (motive := fun q => q.eval call source c = .ok a d →
    ∃ p ∈ ps, p.eval call source c = .ok a d) (fun _ _ heq ih => heq ▸ ih) (fun hok => ?_)
    (fun q r hq hr hok => ?_) (fun p hp hok => ⟨p, hp, hok⟩) h
  · cases hok
  · exact (eval_orElse_ok hok).elim hq hr

/-! ## Interruptions -/

section

variable {why : Interruption} {p : Parser N R α} {c : Cursor}

theorem eval_refine_of_interrupted {judge : α → Verdict β}
    (h : p.eval call source c = .interrupted why) :
    (p.refine judge).eval call source c = .interrupted why := by
  rw [Parser.eval, h, Outcome.andThen_interrupted]

theorem eval_bind_of_interrupted {next : α → Parser N R β}
    (h : p.eval call source c = .interrupted why) :
    (p.bind next).eval call source c = .interrupted why := by
  rw [Parser.eval, h, Outcome.andThen_interrupted]

theorem eval_located_of_interrupted (h : p.eval call source c = .interrupted why) :
    p.located.eval call source c = .interrupted why := by
  rw [Parser.eval, h, Outcome.andThen_interrupted]

theorem eval_orElse_of_interrupted {q : Parser N R α} (h : p.eval call source c = .interrupted why) :
    (p.orElse q).eval call source c = .interrupted why := by
  rw [eval_orElse, h]
  rfl

end

/-! ## Repetitions -/

/-- A repetition ends where its parser fails; otherwise it reads once and goes on. -/
theorem eval_many (hcall : ∀ n c, (call n c).AheadOf c) (p : Parser N R α) (c : Cursor) :
    p.many.eval call source c =
      match p.eval call source c with
      | .fail _ => .ok [] c
      | .interrupted why => .interrupted why
      | .ok a d =>
        if d.offset = c.offset then .interrupted (.stalled .many p.label c.pos)
        else (p.many.eval call source d).andThen fun as e => .ok (a :: as) e := by
  have hahead := eval_reaches hcall source p
  show Outcome.manyLoop _ _ c.rest c [] = _
  conv => lhs; unfold Outcome.manyLoop
  have hc := hahead c
  cases h : p.eval call source c with
  | fail f => simp
  | interrupted why => simp
  | ok a d =>
      rw [h] at hc
      by_cases hd : d.offset = c.offset
      · simp [hd]
      · obtain ⟨x, t, hxt, hle⟩ := Cursor.Reaches.exists_cons hc hd
        rw [hxt]
        simp only [hd, if_false]
        rw [Outcome.manyLoop_eq_andThen _ hahead hle [a]]
        rfl

/-- A repetition with a stop looks for it, and otherwise reads once and goes on. -/
theorem eval_manyTill (hcall : ∀ n c, (call n c).AheadOf c) (p : Parser N R α)
    (stop : Parser N R β) (c : Cursor) :
    (p.manyTill stop).eval call source c =
      match stop.eval call source c with
      | .ok _ d => .ok [] d
      | .interrupted why => .interrupted why
      | .fail noStop =>
        match p.eval call source c with
        | .fail noItem => .fail (noStop.furthest noItem)
        | .interrupted why => .interrupted why
        | .ok a d =>
          if d.offset = c.offset then .interrupted (.stalled .manyTill p.label c.pos)
          else ((p.manyTill stop).eval call source d).andThen fun as e => .ok (a :: as) e := by
  have hahead := eval_reaches hcall source p
  show Outcome.manyTillLoop _ _ _ c.rest c [] = _
  conv => lhs; unfold Outcome.manyTillLoop
  have hc := hahead c
  cases hs : stop.eval call source c with
  | ok b e => simp
  | interrupted why => simp
  | fail g =>
      cases h : p.eval call source c with
      | fail f => simp
      | interrupted why => simp
      | ok a d =>
          rw [h] at hc
          by_cases hd : d.offset = c.offset
          · simp [hd]
          · obtain ⟨x, t, hxt, hle⟩ := Cursor.Reaches.exists_cons hc hd
            rw [hxt]
            simp only [hd, if_false]
            rw [Outcome.manyTillLoop_eq_andThen _ hahead hle [a]]
            rfl

section

variable (hcall : ∀ n c, (call n c).AheadOf c)

include hcall

theorem eval_many_last {p : Parser N R α} {c : Cursor} {f : Failure}
    (h : p.eval call source c = .fail f) : p.many.eval call source c = .ok [] c := by
  rw [eval_many hcall, h]

theorem eval_many_next {p : Parser N R α} {c d : Cursor} {a : α}
    (h : p.eval call source c = .ok a d) (hne : d.offset ≠ c.offset) :
    p.many.eval call source c =
      (p.many.eval call source d).andThen fun as e => .ok (a :: as) e := by
  rw [eval_many hcall, h]
  exact if_neg hne

/-- A repetition that succeeds after a round goes on after it. -/
theorem eval_many_round_ok {p : Parser N R α} {c d e : Cursor} {a : α} {as : List α}
    (h : p.many.eval call source c = .ok as e) (hp : p.eval call source c = .ok a d) :
    ∃ as', as = a :: as' ∧ p.many.eval call source d = .ok as' e := by
  by_cases hstill : d.offset = c.offset
  · rw [eval_many hcall, hp] at h
    simp [hstill] at h
  · rw [eval_many_next hcall hp hstill] at h
    obtain ⟨as', e', hrest, hok⟩ := Outcome.andThen_eq_ok h
    cases hok
    exact ⟨as', rfl, hrest⟩

theorem eval_many_of_interrupted {p : Parser N R α} {c : Cursor} {why : Interruption}
    (h : p.eval call source c = .interrupted why) :
    p.many.eval call source c = .interrupted why := by
  rw [eval_many hcall, h]

theorem eval_manyTill_last {p : Parser N R α} {stop : Parser N R β} {c d : Cursor} {b : β}
    (h : stop.eval call source c = .ok b d) : (p.manyTill stop).eval call source c = .ok [] d := by
  rw [eval_manyTill hcall, h]

theorem eval_manyTill_next {p : Parser N R α} {stop : Parser N R β} {c d : Cursor} {f : Failure}
    {a : α} (hstop : stop.eval call source c = .fail f) (h : p.eval call source c = .ok a d)
    (hne : d.offset ≠ c.offset) :
    (p.manyTill stop).eval call source c =
      ((p.manyTill stop).eval call source d).andThen fun as e => .ok (a :: as) e := by
  rw [eval_manyTill hcall, hstop, h]
  exact if_neg hne

/-- A repetition that succeeds after a round, before which it did not stop, goes on after it. -/
theorem eval_manyTill_round_ok {p : Parser N R α} {stop : Parser N R β} {c d e : Cursor}
    {f : Failure} {a : α} {as : List α} (h : (p.manyTill stop).eval call source c = .ok as e)
    (hstop : stop.eval call source c = .fail f) (hp : p.eval call source c = .ok a d) :
    ∃ as', as = a :: as' ∧ (p.manyTill stop).eval call source d = .ok as' e := by
  by_cases hstill : d.offset = c.offset
  · rw [eval_manyTill hcall, hstop] at h
    simp [hp, hstill] at h
  · rw [eval_manyTill_next hcall hstop hp hstill] at h
    obtain ⟨as', e', hrest, hok⟩ := Outcome.andThen_eq_ok h
    cases hok
    exact ⟨as', rfl, hrest⟩

theorem eval_manyTill_of_interrupted {p : Parser N R α} {stop : Parser N R β} {c : Cursor}
    {why : Interruption} (h : stop.eval call source c = .interrupted why) :
    (p.manyTill stop).eval call source c = .interrupted why := by
  rw [eval_manyTill hcall, h]

theorem eval_manyTill_of_item_interrupted {p : Parser N R α} {stop : Parser N R β} {c : Cursor}
    {f : Failure} {why : Interruption} (hstop : stop.eval call source c = .fail f)
    (h : p.eval call source c = .interrupted why) :
    (p.manyTill stop).eval call source c = .interrupted why := by
  rw [eval_manyTill hcall, hstop, h]

/-- Induction on the rounds of a repetition, from the last one to the first.  In the last one the
parser fails, is broken off or stands still. -/
theorem many_induction {p : Parser N R α} {motive : Cursor → Outcome (List α) → Prop}
    (done : ∀ c f, p.eval call source c = .fail f → motive c (.ok [] c))
    (broken : ∀ c why, p.eval call source c = .interrupted why → motive c (.interrupted why))
    (still : ∀ c d a, p.eval call source c = .ok a d → d.offset = c.offset →
      motive c (.interrupted (.stalled .many p.label c.pos)))
    (round : ∀ c d a o, p.eval call source c = .ok a d → d.offset ≠ c.offset → motive d o →
      motive c (o.andThen fun as e => .ok (a :: as) e))
    (c : Cursor) : motive c (p.many.eval call source c) := by
  induction c using Cursor.forward_induction with
  | step c ih =>
      rw [eval_many hcall]
      cases hp : p.eval call source c with
      | fail f => exact done c f hp
      | interrupted why => exact broken c why hp
      | ok a d =>
          by_cases hd : d.offset = c.offset
          · simpa only [hd, if_true] using still c d a hp hd
          · have hlt := (reaches_of_eval hcall hp).rest_lt hd
            simpa only [hd, if_false] using round c d a _ hp hd (ih d hlt)

/-- Induction on the rounds of a repetition with a stop.  In the last one the stop succeeds, both
parsers fail, one of them is broken off, or the item stands still. -/
theorem manyTill_induction {p : Parser N R α} {stop : Parser N R β}
    {motive : Cursor → Outcome (List α) → Prop}
    (done : ∀ c d b, stop.eval call source c = .ok b d → motive c (.ok [] d))
    (unstopped : ∀ c why, stop.eval call source c = .interrupted why → motive c (.interrupted why))
    (stuck : ∀ c f g, stop.eval call source c = .fail f → p.eval call source c = .fail g →
      motive c (.fail (f.furthest g)))
    (broken : ∀ c f why, stop.eval call source c = .fail f →
      p.eval call source c = .interrupted why → motive c (.interrupted why))
    (still : ∀ c d f a, stop.eval call source c = .fail f → p.eval call source c = .ok a d →
      d.offset = c.offset → motive c (.interrupted (.stalled .manyTill p.label c.pos)))
    (round : ∀ c d f a o, stop.eval call source c = .fail f → p.eval call source c = .ok a d →
      d.offset ≠ c.offset → motive d o → motive c (o.andThen fun as e => .ok (a :: as) e))
    (c : Cursor) : motive c ((p.manyTill stop).eval call source c) := by
  induction c using Cursor.forward_induction with
  | step c ih =>
      rw [eval_manyTill hcall]
      cases hs : stop.eval call source c with
      | ok b d => exact done c d b hs
      | interrupted why => exact unstopped c why hs
      | fail f =>
          cases hp : p.eval call source c with
          | fail g => exact stuck c f g hs hp
          | interrupted why => exact broken c f why hs hp
          | ok a d =>
              by_cases hd : d.offset = c.offset
              · simpa only [hd, if_true] using still c d f a hs hp hd
              · have hlt := (reaches_of_eval hcall hp).rest_lt hd
                simpa only [hd, if_false] using round c d f a _ hs hp hd (ih d hlt)

end

/-- The rounds of a repetition that has ended, one after the other, up to where its parser fails. -/
inductive Rounds (item : Cursor → Outcome α) : Cursor → List α → Cursor → Prop where
  | done {c : Cursor} {f : Failure} (h : item c = .fail f) : Rounds item c [] c
  | next {c d e : Cursor} {a : α} {as : List α} (h : item c = .ok a d)
    (hne : d.offset ≠ c.offset) (hrest : Rounds item d as e) : Rounds item c (a :: as) e

theorem eval_many_ok (hcall : ∀ n c, (call n c).AheadOf c) {p : Parser N R α} {c e : Cursor}
    {as : List α} (h : p.many.eval call source c = .ok as e) :
    Rounds (p.eval call source) c as e := by
  refine many_induction hcall (motive := fun c o => ∀ as, o = .ok as e →
    Rounds (p.eval call source) c as e) ?done ?broken ?still ?round c as h
  case done => rintro c f hp as ⟨⟩; exact .done hp
  case broken => rintro c why - as ⟨⟩
  case still => rintro c d a - - as ⟨⟩
  case round =>
    intro c d a o hp hd ih as hok
    obtain ⟨as', e', hmany, hk⟩ := Outcome.andThen_eq_ok hok
    cases hk
    exact .next hp hd (ih as' hmany)

/-- The rounds of a repetition with a stop, one after the other, up to where the stop succeeds. -/
inductive RoundsTill (item : Cursor → Outcome α) (stop : Cursor → Outcome β) :
    Cursor → List α → Cursor → Prop where
  | done {c d : Cursor} {b : β} (h : stop c = .ok b d) : RoundsTill item stop c [] d
  | next {c d e : Cursor} {a : α} {as : List α} (h : item c = .ok a d)
    (hne : d.offset ≠ c.offset) (hrest : RoundsTill item stop d as e) :
    RoundsTill item stop c (a :: as) e

theorem eval_manyTill_ok (hcall : ∀ n c, (call n c).AheadOf c) {p : Parser N R α}
    {stop : Parser N R β} {c e : Cursor} {as : List α}
    (h : (p.manyTill stop).eval call source c = .ok as e) :
    RoundsTill (p.eval call source) (stop.eval call source) c as e := by
  refine manyTill_induction hcall (motive := fun c o => ∀ as, o = .ok as e →
    RoundsTill (p.eval call source) (stop.eval call source) c as e)
    ?done ?unstopped ?stuck ?broken ?still ?round c as h
  case done => rintro c d b hs as ⟨⟩; exact .done hs
  case unstopped => rintro c why - as ⟨⟩
  case stuck => rintro c f g - - as ⟨⟩
  case broken => rintro c f why - - as ⟨⟩
  case still => rintro c d f a - - - as ⟨⟩
  case round =>
    intro c d f a o _ hp hd ih as hok
    obtain ⟨as', e', hrest, hk⟩ := Outcome.andThen_eq_ok hok
    cases hk
    exact .next hp hd (ih as' hrest)

/-- Each value was returned by a round on the way. -/
theorem RoundsTill.mem {item : Cursor → Outcome α} {stop : Cursor → Outcome β} {c e : Cursor}
    {as : List α} (hitem : ∀ c, (item c).AheadOf c) (h : RoundsTill item stop c as e) {a : α}
    (ha : a ∈ as) : ∃ c' d, c.Reaches c' ∧ item c' = .ok a d := by
  induction h with
  | done h => cases ha
  | @next c d e b as h hne hrest ih =>
      rcases List.mem_cons.mp ha with rfl | ha
      · exact ⟨c, d, Cursor.Reaches.refl c, h⟩
      · obtain ⟨c', d', hreach, hc'⟩ := ih ha
        have hahead := hitem c
        rw [h] at hahead
        exact ⟨c', d', Cursor.Reaches.trans hahead hreach, hc'⟩

theorem eval_many1_ok (hcall : ∀ n c, (call n c).AheadOf c) {p : Parser N R α} {c e : Cursor}
    {as : List α} (h : p.many1.eval call source c = .ok as e) :
    ∃ a as' d, as = a :: as' ∧ p.eval call source c = .ok a d ∧
      Rounds (p.eval call source) d as' e := by
  unfold Parser.many1 at h
  rw [Parser.eval] at h
  obtain ⟨a, d, hp, hmap⟩ := eval_bind_ok h
  obtain ⟨as', hmany, rfl⟩ := eval_map_ok hmap
  exact ⟨a, as', d, rfl, hp, eval_many_ok hcall hmany⟩

end Parser

end PieSyntax
