import Mathlib.Logic.Relation
import PieSyntax.Proofs.Spans

/-!
# The runs within a run

A run of a parser starts runs of its parts, and those start others, across the calls of nonterminals
as well.  `Task.Starts` says which runs a run starts by itself, with one constructor for each way in
which the engine does so; `Task.Visits` follows it through any number of steps.

An attempt that fails may be given up, and then the run goes on from where the attempt started.  What
is left of a run that succeeds is what `Task.Keeps` follows: the runs that have all succeeded.

Every run started lies ahead.  A run that is kept has ended before the run that keeps it, while one
that was given up may have got further.

## Main results

* `Task.Starts.reaches`, `Task.Starts.within` — one step, forward and within.
* `Task.Visits.reaches`, `Task.Keeps.within` — any number of steps.
* `Rules.run_consistent` — where a run ends, where it fails, and what its locations span.
-/

namespace PieSyntax

variable {N : Type} {R : N → Type}

/-- What is run, where, and under which ceiling. -/
structure Task (N : Type) (R : N → Type) where
  ceiling : Nat
  {Value : Type}
  parser : Parser N R Value
  cursor : Cursor

namespace Task

variable (rules : Rules N R) (source : String)

/-- How the task ends. -/
def outcome (t : Task N R) : Outcome t.Value := rules.run t.ceiling source t.parser t.cursor

/-- The task ends with a value. -/
def Succeeds (t : Task N R) : Prop := ∃ a d, t.outcome rules source = .ok a d

/-- The run of the first task starts the second one.  A repetition starts its first round, and the
repetition that goes on after it. -/
inductive Starts : Task N R → Task N R → Prop where
  | refine {k : Nat} {α β : Type} {p : Parser N R α} {judge : α → Verdict β} {c : Cursor} :
    Starts ⟨k, p.refine judge, c⟩ ⟨k, p, c⟩
  | bindFirst {k : Nat} {α β : Type} {p : Parser N R α} {next : α → Parser N R β} {c : Cursor} :
    Starts ⟨k, p.bind next, c⟩ ⟨k, p, c⟩
  | bindNext {k : Nat} {α β : Type} {p : Parser N R α} {next : α → Parser N R β} {c d : Cursor}
    {a : α} (h : rules.run k source p c = .ok a d) : Starts ⟨k, p.bind next, c⟩ ⟨k, next a, d⟩
  | firstAlternative {k : Nat} {α : Type} {n : Nat} {p : Parser N R α} {ps : Fin n → Parser N R α}
    {c : Cursor} : Starts ⟨k, .alternatives p ps, c⟩ ⟨k, p, c⟩
  | alternative {k : Nat} {α : Type} {n : Nat} {p : Parser N R α} {ps : Fin n → Parser N R α}
    {c : Cursor} (i : Fin n) (h : ∃ f, rules.run k source p c = .fail f)
    (hs : ∀ j < i, ∃ f, rules.run k source (ps j) c = .fail f) :
    Starts ⟨k, .alternatives p ps, c⟩ ⟨k, ps i, c⟩
  | manyRound {k : Nat} {α : Type} {p : Parser N R α} {c : Cursor} :
    Starts ⟨k, p.many, c⟩ ⟨k, p, c⟩
  | manyRest {k : Nat} {α : Type} {p : Parser N R α} {c d : Cursor} {a : α}
    (h : rules.run k source p c = .ok a d) (hne : d.offset ≠ c.offset) :
    Starts ⟨k, p.many, c⟩ ⟨k, p.many, d⟩
  | manyTillStop {k : Nat} {α β : Type} {p : Parser N R α} {stop : Parser N R β} {c : Cursor} :
    Starts ⟨k, p.manyTill stop, c⟩ ⟨k, stop, c⟩
  | manyTillRound {k : Nat} {α β : Type} {p : Parser N R α} {stop : Parser N R β} {c : Cursor}
    {f : Failure} (hstop : rules.run k source stop c = .fail f) :
    Starts ⟨k, p.manyTill stop, c⟩ ⟨k, p, c⟩
  | manyTillRest {k : Nat} {α β : Type} {p : Parser N R α} {stop : Parser N R β} {c d : Cursor}
    {f : Failure} {a : α} (hstop : rules.run k source stop c = .fail f)
    (h : rules.run k source p c = .ok a d) (hne : d.offset ≠ c.offset) :
    Starts ⟨k, p.manyTill stop, c⟩ ⟨k, p.manyTill stop, d⟩
  | located {k : Nat} {α : Type} {p : Parser N R α} {c : Cursor} :
    Starts ⟨k, p.located, c⟩ ⟨k, p, c⟩
  | named {k : Nat} {α : Type} {name : String} {p : Parser N R α} {c : Cursor} :
    Starts ⟨k, .named name p, c⟩ ⟨k, p, c⟩
  | call {k : Nat} {n : N} {c : Cursor} : Starts ⟨k + 1, .call n, c⟩ ⟨k, rules n, c⟩

/-- The run of the first task comes to run the second one. -/
def Visits : Task N R → Task N R → Prop := Relation.ReflTransGen (Starts rules source)

/-- The run of the first task comes to run the second one, through runs that have succeeded. -/
def Keeps : Task N R → Task N R → Prop :=
  Relation.ReflTransGen fun t u => Starts rules source t u ∧ u.Succeeds rules source

variable {rules source} {t u : Task N R}

/-- A choice starts an alternative when those before it have failed. -/
theorem Starts.choice {k : Nat} {α : Type} {before after : List (Parser N R α)} {p : Parser N R α}
    {c : Cursor} (h : ∀ q ∈ before, ∃ f, rules.run k source q c = .fail f) :
    Starts rules source ⟨k, .choice (before ++ p :: after), c⟩ ⟨k, p, c⟩ := by
  cases before with
  | nil => exact .firstAlternative
  | cons q qs =>
      have hlt : qs.length < (qs ++ p :: after).length := by simp
      have hget : (qs ++ p :: after).get ⟨qs.length, hlt⟩ = p := by simp
      have hstarts : Starts rules source ⟨k, .alternatives q (qs ++ p :: after).get, c⟩
          ⟨k, (qs ++ p :: after).get ⟨qs.length, hlt⟩, c⟩ := by
        refine .alternative _ (h q List.mem_cons_self) fun j hj => ?_
        rw [List.get_eq_getElem, List.getElem_append_left hj]
        exact h _ (List.mem_cons_of_mem q (List.getElem_mem hj))
      rwa [hget] at hstarts

/-! ## Going forward -/

/-- What a run starts lies ahead. -/
theorem Starts.reaches (h : Starts rules source t u) : t.cursor.Reaches u.cursor := by
  cases h with
  | bindNext h => exact Rules.reaches_of_run h
  | manyRest h hne => exact Rules.reaches_of_run h
  | manyTillRest hstop h hne => exact Rules.reaches_of_run h
  | _ => exact Cursor.Reaches.refl _

/-- What a run comes to lies ahead. -/
theorem Visits.reaches (h : Visits rules source t u) : t.cursor.Reaches u.cursor := by
  induction h with
  | refl => exact Cursor.Reaches.refl _
  | tail _ hstarts ih => exact ih.trans hstarts.reaches

theorem Keeps.visits (h : Keeps rules source t u) : Visits rules source t u :=
  Relation.ReflTransGen.mono (fun _ _ hstep => hstep.1) _ _ h

/-! ## Staying within -/

/-- What a run starts that succeeds has ended before the run that succeeds has. -/
theorem Starts.within (h : Starts rules source t u) {a : t.Value} {b : u.Value} {d e : Cursor}
    (ht : t.outcome rules source = .ok a d) (hu : u.outcome rules source = .ok b e) :
    e.Reaches d := by
  have hcall := fun k => rules.call_reaches source k
  cases h with
  | refine =>
      obtain ⟨a', hp, -⟩ := Parser.eval_refine_ok ht
      cases hp.symm.trans hu
      exact Cursor.Reaches.refl _
  | bindFirst =>
      obtain ⟨a', d', hp, hnext⟩ := Parser.eval_bind_ok ht
      cases hp.symm.trans hu
      exact Rules.reaches_of_run hnext
  | bindNext h =>
      obtain ⟨a', d', hp, hnext⟩ := Parser.eval_bind_ok ht
      cases hp.symm.trans h
      cases hnext.symm.trans hu
      exact Cursor.Reaches.refl _
  | @firstAlternative k α n p ps c =>
      have hp : p.eval (rules.call source k) source c = .ok b e := hu
      change (Parser.alternatives p ps).eval (rules.call source k) source c = _ at ht
      rw [Parser.eval_alternatives_of_ne_fail (by simp [hp]), hp] at ht
      cases ht
      exact Cursor.Reaches.refl _
  | @alternative k α n p ps c i h hs =>
      have hi : (ps i).eval (rules.call source k) source c = .ok b e := hu
      change (Parser.alternatives p ps).eval (rules.call source k) source c = _ at ht
      rw [Parser.eval_alternatives_of_fails h hs (by simp [hi]), hi] at ht
      cases ht
      exact Cursor.Reaches.refl _
  | manyRound =>
      obtain ⟨as, -, hrest⟩ := Parser.eval_many_round_ok (hcall _) ht hu
      exact Rules.reaches_of_run hrest
  | manyRest h hne =>
      obtain ⟨as, -, hrest⟩ := Parser.eval_many_round_ok (hcall _) ht h
      cases hrest.symm.trans hu
      exact Cursor.Reaches.refl _
  | @manyTillStop k α β p stop c =>
      have hs : stop.eval (rules.call source k) source c = .ok b e := hu
      change (p.manyTill stop).eval (rules.call source k) source c = _ at ht
      rw [Parser.eval_manyTill_last (hcall k) hs] at ht
      cases ht
      exact Cursor.Reaches.refl _
  | manyTillRound hstop =>
      obtain ⟨as, -, hrest⟩ := Parser.eval_manyTill_round_ok (hcall _) ht hstop hu
      exact Rules.reaches_of_run hrest
  | manyTillRest hstop h hne =>
      obtain ⟨as, -, hrest⟩ := Parser.eval_manyTill_round_ok (hcall _) ht hstop h
      cases hrest.symm.trans hu
      exact Cursor.Reaches.refl _
  | located =>
      obtain ⟨hp, -⟩ := Parser.eval_located_ok ht
      cases hp.symm.trans hu
      exact Cursor.Reaches.refl _
  | named =>
      cases Eq.trans (Eq.symm ht) hu
      exact Cursor.Reaches.refl _
  | call =>
      cases Eq.trans (Eq.symm ht) hu
      exact Cursor.Reaches.refl _

/-- What a run keeps has ended before the run has. -/
theorem Keeps.within (h : Keeps rules source t u) {a : t.Value} {d : Cursor}
    (ht : t.outcome rules source = .ok a d) :
    ∃ b e, u.outcome rules source = .ok b e ∧ e.Reaches d := by
  induction h with
  | refl => exact ⟨a, d, ht, Cursor.Reaches.refl d⟩
  | tail _ hstep ih =>
      obtain ⟨hstarts, b', e', hok⟩ := hstep
      obtain ⟨b, e, hu, hreach⟩ := ih
      exact ⟨b', e', hok, (hstarts.within hu hok).trans hreach⟩

/-! ## Locations -/

variable (rules source)

/-- The task puts the location on a value. -/
inductive Locates : Task N R → Location → Prop where
  | intro {k : Nat} {α : Type} {p : Parser N R α} {c d : Cursor} {x : Located α}
    (h : rules.run k source p.located c = .ok x d) : Locates ⟨k, p.located, c⟩ x.loc

/-- The location is made during the run, be it by an attempt that is given up. -/
def Makes (t : Task N R) (l : Location) : Prop :=
  ∃ u, Visits rules source t u ∧ Locates rules source u l

/-- The location is made during the run, and the attempt that made it is not given up. -/
def MakesForGood (t : Task N R) (l : Location) : Prop :=
  ∃ u, Keeps rules source t u ∧ Locates rules source u l

variable {rules source} {l : Location}

/-- A location spans what the parser below it has read. -/
theorem Locates.eq (h : Locates rules source u l) :
    ∃ b e, u.outcome rules source = .ok b e ∧ l = ⟨source, u.cursor.pos, e.pos⟩ := by
  cases h with
  | intro h => exact ⟨_, _, h, (Parser.eval_located_ok h).2⟩

end Task

/-- The location lies in the source, between two offsets of the text. -/
def Location.Within (source : String) (text : Text) (lo hi : Nat) (l : Location) : Prop :=
  l.source = source ∧ ∃ i j, lo ≤ i ∧ i ≤ j ∧ j ≤ hi ∧
    OffsetOf text l.start i ∧ OffsetOf text l.finish j

namespace Task

variable {rules : Rules N R} {source : String} {t u : Task N R} {l : Location} {text : Text}

/-- The location that a task puts on a value, when the run that comes to it started at `lo` and gets
to `hi`. -/
theorem Locates.locationWithin (h : Locates rules source u l) {c : Cursor} {hi : Nat}
    (hc : c.At text) (hcu : c.Reaches u.cursor)
    (hend : ∀ b e, u.outcome rules source = .ok b e → e.offset ≤ hi) :
    l.Within source text c.offset hi := by
  obtain ⟨b, e, hok, rfl⟩ := h.eq
  have hue : u.cursor.Reaches e := Rules.reaches_of_run hok
  exact ⟨rfl, u.cursor.offset, e.offset, hcu.offset_le, hue.offset_le, hend b e hok,
    (hcu.at hc).offsetOf, ((hcu.trans hue).at hc).offsetOf⟩

/-- No location made during a run lies outside the text that was to come. -/
theorem Makes.locationWithin (h : Makes rules source t l) (ht : t.cursor.At text) :
    l.Within source text t.cursor.offset text.length := by
  obtain ⟨u, hvisits, hlocates⟩ := h
  have hreach := hvisits.reaches
  refine hlocates.locationWithin ht hreach fun b e hok => ?_
  have hend : t.cursor.Reaches e := hreach.trans (Rules.reaches_of_run hok)
  exact (hend.at ht).1

/-- No location that a run has made for good lies outside what it has read. -/
theorem MakesForGood.locationWithin (h : MakesForGood rules source t l) (ht : t.cursor.At text)
    {a : t.Value} {d : Cursor} (hok : t.outcome rules source = .ok a d) :
    l.Within source text t.cursor.offset d.offset := by
  obtain ⟨u, hkeeps, hlocates⟩ := h
  obtain ⟨b, e, hu, hed⟩ := hkeeps.within hok
  refine hlocates.locationWithin ht hkeeps.visits.reaches fun b' e' hu' => ?_
  cases hu.symm.trans hu'
  exact hed.offset_le

end Task

/-- The invariant of all runs, with any rules and from any cursor on a text.  A run that succeeds ends
on a cursor on the text, no earlier, and what it locates lies between the two; a run that fails does
so somewhere between where it started and the end of the text.  What was located by attempts that were
given up lies in that range too, though perhaps beyond the place where the run has ended. -/
theorem Rules.run_consistent {text : Text} {c : Cursor} (hc : c.At text) (rules : Rules N R)
    (ceiling : Nat) (source : String) {α : Type} (p : Parser N R α) :
    (∀ a d, rules.run ceiling source p c = .ok a d → d.At text ∧ c.offset ≤ d.offset ∧
      ∀ l, Task.MakesForGood rules source ⟨ceiling, p, c⟩ l →
        l.Within source text c.offset d.offset) ∧
    (∀ f, rules.run ceiling source p c = .fail f → ∃ i, c.offset ≤ i ∧ OffsetOf text f.pos i) ∧
    ∀ l, Task.Makes rules source ⟨ceiling, p, c⟩ l →
      l.Within source text c.offset text.length := by
  refine ⟨?_, ?_, ?_⟩
  · intro a d hok
    have hreach := Rules.reaches_of_run hok
    exact ⟨hreach.at hc, hreach.offset_le, fun l hl => hl.locationWithin hc hok⟩
  · intro f hfail
    have hahead := rules.run_reaches ceiling source p c
    rw [hfail] at hahead
    obtain ⟨d, hreach, hpos⟩ := hahead
    exact ⟨d.offset, hreach.offset_le, hpos ▸ (hreach.at hc).offsetOf⟩
  · intro l hl
    exact hl.locationWithin hc

/-- Where a datum comment may start, one is tried. -/
theorem Grammar.starts_datumComment {source : String} {k : Nat} {c : Cursor}
    (h : c.rest.head? = some '#') :
    Task.Starts rules source ⟨k, triviaItem, c⟩ ⟨k, datumComment skip innerDatum, c⟩ := by
  have hhead : ∀ v, (Tails.empty False) v → ∀ ch ∈ (c.rest ++ v).head?, ch = '#' := by
    intro v hv ch hch
    rw [show v = [] from hv, List.append_nil, h] at hch
    exact (Option.mem_some.mp hch).symm
  unfold triviaItem
  rw [List.append_cons]
  exact .choice fun q hq => (declines_before_comment hhead q hq).eval_fail

/-- A location may lie beyond the place where the run ends.  Where a text breaks off after the mark of
a datum comment, the mark is located, and the comment is given up. -/
theorem makes_beyond_end :
    ∃ l : Location, (Cursor.start "#;".toList).At "#;".toList ∧
      Grammar.rules.run 9 "f" Grammar.trivia (.start "#;".toList) = .ok () (.start "#;".toList) ∧
      Task.Makes Grammar.rules "f" ⟨9, Grammar.trivia, .start "#;".toList⟩ l ∧
      ¬ l.Within "f" "#;".toList (Cursor.start "#;".toList).offset
        (Cursor.start "#;".toList).offset := by
  have hmark : Grammar.rules.run 9 "f" (Parser.text "#;".toList).located (.start "#;".toList) =
      .ok ⟨⟨"f", ⟨1, 1⟩, ⟨1, 3⟩⟩, "#;".toList⟩ ⟨[], 2, ⟨1, 3⟩⟩ := rfl
  have hitem : Task.Visits Grammar.rules "f" ⟨9, Grammar.trivia, .start "#;".toList⟩
      ⟨9, datumComment Grammar.skip Grammar.innerDatum, .start "#;".toList⟩ :=
    ((Relation.ReflTransGen.single .refine).tail .manyRound).tail (Grammar.starts_datumComment rfl)
  have hlexeme : Task.Visits Grammar.rules "f" ⟨9, Grammar.trivia, .start "#;".toList⟩
      ⟨9, lexeme Grammar.skip (.text "#;".toList), .start "#;".toList⟩ :=
    ((hitem.tail .refine).tail .named).tail .bindFirst
  refine ⟨_, Cursor.start_at _, rfl, ⟨_, (hlexeme.tail .named).tail .bindFirst, .intro hmark⟩, ?_⟩
  rintro ⟨-, i, j, -, -, hj, -, hfinish⟩
  obtain rfl : j = 0 := Nat.le_zero.mp hj
  have hmoved : (⟨1, 3⟩ : Position) = .start := ((hfinish.2 0 (Nat.zero_le _)).mpr rfl).symm
  exact absurd hmoved (by decide)

/-! ## Nested parentheses -/

/-- A pair of parentheses around others, with its place. -/
def parenthesized : Parser Unit (fun _ => Nat) (Located Nat) :=
  ((Parser.char '(').andThen ((Parser.call ()).followedBy (.char ')'))).located

/-- Counts how deeply parentheses are nested around nothing.  One that is not closed counts for
nothing. -/
def nesting : Rules Unit fun _ => Nat := fun _ =>
  (parenthesized.map fun x => x.value + 1).orElse (.pure 0)

/-- The parentheses in the middle of a text are counted, and their place is within what was read. -/
theorem run_consistent_nesting :
    ∃ c d : Cursor, c.At "(()(".toList ∧ nesting.run 9 "parens" (.call ()) c = .ok 1 d ∧
      Task.MakesForGood nesting "parens" ⟨9, .call (), c⟩ ⟨"parens", ⟨1, 2⟩, ⟨1, 4⟩⟩ ∧
      d.At "(()(".toList ∧
      ∀ l, Task.MakesForGood nesting "parens" ⟨9, .call (), c⟩ l →
        l.Within "parens" "(()(".toList c.offset d.offset := by
  have hc : (⟨"()(".toList, 1, ⟨1, 2⟩⟩ : Cursor).At "(()(".toList := by decide
  have hplace : nesting.run 8 "parens" parenthesized ⟨"()(".toList, 1, ⟨1, 2⟩⟩ =
      .ok ⟨⟨"parens", ⟨1, 2⟩, ⟨1, 4⟩⟩, 0⟩ ⟨"(".toList, 3, ⟨1, 4⟩⟩ := rfl
  have hcounted : nesting.run 8 "parens" (parenthesized.map fun x => x.value + 1)
      ⟨"()(".toList, 1, ⟨1, 2⟩⟩ = .ok 1 ⟨"(".toList, 3, ⟨1, 4⟩⟩ := rfl
  have hrule : nesting.run 8 "parens" (nesting ()) ⟨"()(".toList, 1, ⟨1, 2⟩⟩ =
      .ok 1 ⟨"(".toList, 3, ⟨1, 4⟩⟩ := rfl
  have hrun : nesting.run 9 "parens" (.call ()) ⟨"()(".toList, 1, ⟨1, 2⟩⟩ =
      .ok 1 ⟨"(".toList, 3, ⟨1, 4⟩⟩ := rfl
  have hcall : Task.Keeps nesting "parens" ⟨9, .call (), ⟨"()(".toList, 1, ⟨1, 2⟩⟩⟩
      ⟨8, nesting (), ⟨"()(".toList, 1, ⟨1, 2⟩⟩⟩ := .single ⟨.call, _, _, hrule⟩
  have hchoice : Task.Keeps nesting "parens" ⟨9, .call (), ⟨"()(".toList, 1, ⟨1, 2⟩⟩⟩
      ⟨8, parenthesized.map fun x => x.value + 1, ⟨"()(".toList, 1, ⟨1, 2⟩⟩⟩ :=
    hcall.tail ⟨.firstAlternative, _, _, hcounted⟩
  refine ⟨_, _, hc, hrun, ⟨_, hchoice.tail ⟨.refine, _, _, hplace⟩, .intro hplace⟩, ?_⟩
  obtain ⟨hat, -, hplaces⟩ := (Rules.run_consistent hc nesting 9 "parens" (.call ())).1 1 _ hrun
  exact ⟨hat, hplaces⟩

end PieSyntax
