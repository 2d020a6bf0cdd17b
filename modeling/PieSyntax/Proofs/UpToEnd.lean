import PieSyntax.Proofs.Progress

/-!
# Repeating up to the end of the text

A repetition with a stop looks for the stop before each item, and a plain one tries an item first.
When the stop is the end of the text and each item takes a character, both read the same items: where
one has been read the text was not at its end.  So the two differ at most where no further item is read
(`Parser.EndsAlike`).  If the text goes on there, both fail, and the one with the stop tells what the
item failed with as well.  If it does not, both succeed, provided that the item does fail there: the
plain repetition tries it once more at the end, and what is broken off then breaks off the repetition.

A top-level form is not broken off at the end of a text, so a program is read in either way.

## Main results

* `Parser.exists_endsAlike` — the items, and how the two repetitions end after them.
* `manyTill_eof` — a repetition up to the end, and one with the end after it.
* `manyTill_eof_unseen` — the one is broken off at the end and the other is not.
* `Grammar.run_forms_eq_ok_iff` — the forms of a program.
-/

namespace PieSyntax

namespace Parser

variable {N : Type} {R : N → Type} {α : Type}

/-- The items that are read one after the other, from the first cursor to the second one. -/
inductive Items (item : Cursor → Outcome α) : Cursor → List α → Cursor → Prop where
  | none (c : Cursor) : Items item c [] c
  | next {c d e : Cursor} {a : α} {as : List α} (h : item c = .ok a d)
    (hrest : Items item d as e) : Items item c (a :: as) e

/-- Wherever in the text the parser succeeds, it has moved on. -/
def Moves (call : (n : N) → Cursor → Outcome (R n)) (source : String) (text : Text)
    (p : Parser N R α) : Prop :=
  ∀ c a d, c.At text → p.eval call source c = .ok a d → d.offset ≠ c.offset

/-- How two repetitions end that have read the same items up to the cursor: the one with a stop, and
the plain one with the end after it. -/
inductive EndsAlike (item : Cursor → Outcome α) (as : List α) (e : Cursor) :
    Outcome (List α) → Outcome (List α) → Prop where
  | accepted {f : Failure} (hend : e.rest = []) (h : item e = .fail f) :
    EndsAlike item as e (.ok as e) (.ok as e)
  /-- Only the plain repetition tries an item at the end of the text. -/
  | unseen {why : Interruption} (hend : e.rest = []) (h : item e = .interrupted why) :
    EndsAlike item as e (.ok as e) (.interrupted why)
  | rejected {f : Failure} (hrest : e.rest ≠ []) (h : item e = .fail f) :
    EndsAlike item as e (.fail (Failure.furthest ⟨e.pos, .endOfInput⟩ f))
      (.fail ⟨e.pos, .endOfInput⟩)
  | brokenOff {why : Interruption} (hrest : e.rest ≠ []) (h : item e = .interrupted why) :
    EndsAlike item as e (.interrupted why) (.interrupted why)

variable {call : (n : N) → Cursor → Outcome (R n)} {source : String} {text : Text}
variable {p : Parser N R α} {c d e : Cursor} {as : List α}

theorem eval_eof_of_nil (h : c.rest = []) :
    (Parser.eof : Parser N R Unit).eval call source c = .ok () c :=
  if_pos (List.isEmpty_iff.mpr h)

theorem eval_eof_of_ne_nil (h : c.rest ≠ []) :
    (Parser.eof : Parser N R Unit).eval call source c = .fail ⟨c.pos, .endOfInput⟩ :=
  if_neg fun hend => h (List.isEmpty_iff.mp hend)

theorem Consumes.moves (hcall : ∀ n c, (call n c).AheadOf c) (h : Consumes call source p) :
    p.Moves call source text :=
  fun c a d _ hok => (reaches_of_eval hcall hok).offset_ne (h c a d hok)

/-- Nor does what comes before a parser that reads a character give one back. -/
theorem Consumes.after (hcall : ∀ n c, (call n c).AheadOf c) {β : Type} {q : Parser N R β}
    (h : Consumes call source p) : Consumes call source (q.andThen p) := by
  intro c a e hok
  obtain ⟨b, d, hq, hp⟩ := eval_andThen_ok hok
  exact Nat.lt_of_lt_of_le (h d a e hp) (length_le_of_eval hcall hq)

/-! ## The items of a repetition -/

/-- Items are read up to a place where none is. -/
theorem exists_items (hcall : ∀ n c, (call n c).AheadOf c) (hp : p.Moves call source text)
    (hc : c.At text) : ∃ as e, Items (p.eval call source) c as e ∧ e.At text ∧
      ∀ a d, p.eval call source e ≠ .ok a d := by
  induction c using Cursor.forward_induction with
  | step c ih =>
      cases hok : p.eval call source c with
      | fail f => exact ⟨[], c, .none c, hc, by simp [hok]⟩
      | interrupted why => exact ⟨[], c, .none c, hc, by simp [hok]⟩
      | ok a d =>
          have hreach := reaches_of_eval hcall hok
          have hlt := hreach.rest_lt (hp c a d hc hok)
          obtain ⟨as, e, hitems, he, hlast⟩ := ih d hlt (hreach.at hc)
          exact ⟨a :: as, e, .next hok hitems, he, hlast⟩

/-- A repetition reads the items and goes on after them. -/
theorem Items.eval_many (hcall : ∀ n c, (call n c).AheadOf c) (hp : p.Moves call source text)
    (h : Items (p.eval call source) c as e) (hc : c.At text) :
    p.many.eval call source c =
      (p.many.eval call source e).andThen fun bs d => .ok (as ++ bs) d := by
  induction h with
  | none c => cases p.many.eval call source c <;> rfl
  | @next c d e a as hok hrest ih =>
      have hne := hp c a d hc hok
      rw [eval_many_next hcall hok hne, ih ((reaches_of_eval hcall hok).at hc)]
      cases p.many.eval call source e <;> rfl

theorem Items.eval_many_eq_ok (hcall : ∀ n c, (call n c).AheadOf c) (hp : p.Moves call source text)
    (h : Items (p.eval call source) c as e) (hc : c.At text) {f : Failure}
    (hfail : p.eval call source e = .fail f) : p.many.eval call source c = .ok as e := by
  rw [h.eval_many hcall hp hc, eval_many_last hcall hfail, Outcome.andThen_ok, List.append_nil]

/-- So does one that looks for the end of the text before each of them. -/
theorem Items.eval_manyTill_eof (hcall : ∀ n c, (call n c).AheadOf c)
    (hp : p.Moves call source text) (h : Items (p.eval call source) c as e) (hc : c.At text) :
    (p.manyTill .eof).eval call source c =
      ((p.manyTill .eof).eval call source e).andThen fun bs d => .ok (as ++ bs) d := by
  induction h with
  | none c => cases (p.manyTill .eof).eval call source c <;> rfl
  | @next c d e a as hok hrest ih =>
      have hne := hp c a d hc hok
      have hreach := reaches_of_eval hcall hok
      have hlt := hreach.rest_lt hne
      -- An item has been read here, so the stop is not met before it.
      have hleft : c.rest ≠ [] := List.ne_nil_of_length_pos (by omega)
      rw [eval_manyTill_next hcall (eval_eof_of_ne_nil hleft) hok hne, ih (hreach.at hc)]
      cases (p.manyTill .eof).eval call source e <;> rfl

/-- Both repetitions read the same items, and end alike after them. -/
theorem exists_endsAlike (hcall : ∀ n c, (call n c).AheadOf c) (hp : p.Moves call source text)
    (hc : c.At text) : ∃ as e, Items (p.eval call source) c as e ∧ e.At text ∧
      EndsAlike (p.eval call source) as e ((p.manyTill .eof).eval call source c)
        ((p.many.followedBy .eof).eval call source c) := by
  obtain ⟨as, e, hitems, he, hlast⟩ := exists_items hcall hp hc
  refine ⟨as, e, hitems, he, ?_⟩
  -- After the items each repetition is in its last round, and the two differ in what they try first.
  rw [hitems.eval_manyTill_eof hcall hp hc, eval_followedBy_eof, hitems.eval_many hcall hp hc,
    Parser.eval_many hcall p e, eval_manyTill hcall p .eof e]
  cases hitem : p.eval call source e with
  | ok a d => exact absurd hitem (hlast a d)
  | fail f =>
      by_cases hend : e.rest = []
      · simp only [eval_eof_of_nil hend, Outcome.andThen_ok, List.append_nil, if_pos hend]
        exact .accepted hend hitem
      · simp only [eval_eof_of_ne_nil hend, Outcome.andThen_ok, Outcome.andThen_fail, if_neg hend]
        exact .rejected hend hitem
  | interrupted why =>
      by_cases hend : e.rest = []
      · simp only [eval_eof_of_nil hend, Outcome.andThen_ok, Outcome.andThen_interrupted,
          List.append_nil]
        exact .unseen hend hitem
      · simp only [eval_eof_of_ne_nil hend, Outcome.andThen_interrupted]
        exact .brokenOff hend hitem

section EndsAlike

variable {item : Cursor → Outcome α} {as bs : List α} {e d : Cursor}
variable {till whole : Outcome (List α)}

theorem EndsAlike.whole_eq_ok_iff (h : EndsAlike item as e till whole) :
    whole = .ok bs d ↔ till = .ok bs d ∧ ∀ why, item d ≠ .interrupted why := by
  cases h with
  | accepted hend hitem =>
      refine ⟨fun hok => ⟨hok, fun why hwhy => ?_⟩, And.left⟩
      cases hok
      cases hitem.symm.trans hwhy
  | unseen hend hitem =>
      refine ⟨nofun, fun ⟨hok, hnever⟩ => ?_⟩
      cases hok
      exact absurd hitem (hnever _)
  | rejected hrest hitem => exact ⟨nofun, nofun⟩
  | brokenOff hrest hitem => exact ⟨nofun, nofun⟩

theorem EndsAlike.whole_interrupted_of_ok (h : EndsAlike item as e till whole)
    (hok : till = .ok bs d) {why : Interruption} (hwhy : item d = .interrupted why) :
    d.rest = [] ∧ whole = .interrupted why := by
  cases h with
  | accepted hend hitem =>
      cases hok
      cases hitem.symm.trans hwhy
  | unseen hend hitem =>
      cases hok
      cases hitem.symm.trans hwhy
      exact ⟨hend, rfl⟩
  | rejected hrest hitem => cases hok
  | brokenOff hrest hitem => cases hok

theorem EndsAlike.whole_interrupted (h : EndsAlike item as e till whole) {why : Interruption}
    (hwhy : till = .interrupted why) : whole = .interrupted why := by
  cases h with
  | accepted hend hitem => exact hwhy
  | unseen hend hitem => cases hwhy
  | rejected hrest hitem => cases hwhy
  | brokenOff hrest hitem => exact hwhy

theorem EndsAlike.fail_iff (h : EndsAlike item as e till whole) :
    (∃ f, till = .fail f) ↔ ∃ f, whole = .fail f := by
  cases h with
  | accepted hend hitem => exact Iff.rfl
  | unseen hend hitem => exact ⟨nofun, nofun⟩
  | rejected hrest hitem => exact ⟨fun _ => ⟨_, rfl⟩, fun _ => ⟨_, rfl⟩⟩
  | brokenOff hrest hitem => exact Iff.rfl

theorem EndsAlike.whole_eq_fail (h : EndsAlike item as e till whole) {f : Failure}
    (hfail : till = .fail f) : whole = .fail ⟨e.pos, .endOfInput⟩ ∧
      ∃ g, item e = .fail g ∧ f = Failure.furthest ⟨e.pos, .endOfInput⟩ g := by
  cases h with
  | accepted hend hitem => cases hfail
  | unseen hend hitem => cases hfail
  | rejected hrest hitem =>
      cases hfail
      exact ⟨rfl, _, hitem, rfl⟩
  | brokenOff hrest hitem => cases hfail

end EndsAlike

end Parser

/-- A repetition up to the end of the text reads what a plain one reads that has the end after it, and
fails where that fails, at the same place or further on.  The plain one is broken off wherever the other
one is, and also where its item is broken off at the end of the text. -/
theorem manyTill_eof {N : Type} {R : N → Type} {α : Type} {rules : Rules N R} {source : String}
    {k : Nat} {p : Parser N R α} {text : Text} {c : Cursor}
    (hp : p.Moves (rules.call source k) source text) (hc : c.At text) :
    (∀ as e, rules.run k source (p.many.followedBy .eof) c = .ok as e ↔
      rules.run k source (p.manyTill .eof) c = .ok as e ∧
        ∀ why, rules.run k source p e ≠ .interrupted why) ∧
    (∀ as e why, rules.run k source (p.manyTill .eof) c = .ok as e →
      rules.run k source p e = .interrupted why →
        e.rest = [] ∧ rules.run k source (p.many.followedBy .eof) c = .interrupted why) ∧
    (∀ why, rules.run k source (p.manyTill .eof) c = .interrupted why →
      rules.run k source (p.many.followedBy .eof) c = .interrupted why) ∧
    ((∃ f, rules.run k source (p.manyTill .eof) c = .fail f) ↔
      ∃ f, rules.run k source (p.many.followedBy .eof) c = .fail f) ∧
    ∀ f, rules.run k source (p.manyTill .eof) c = .fail f →
      ∃ as e g, Parser.Items (rules.run k source p) c as e ∧ e.At text ∧
        rules.run k source p e = .fail g ∧ rules.run k source p.many c = .ok as e ∧
        rules.run k source (p.many.followedBy .eof) c = .fail ⟨e.pos, .endOfInput⟩ ∧
        f = Failure.furthest ⟨e.pos, .endOfInput⟩ g ∧ e.pos ≤ f.pos := by
  have hcall := rules.call_reaches source k
  obtain ⟨as, e, hitems, he, hends⟩ := Parser.exists_endsAlike hcall hp hc
  refine ⟨fun _ _ => hends.whole_eq_ok_iff, fun _ _ _ hok => hends.whole_interrupted_of_ok hok,
    fun _ => hends.whole_interrupted, hends.fail_iff, fun f hf => ?_⟩
  obtain ⟨hwhole, g, hg, rfl⟩ := hends.whole_eq_fail hf
  refine ⟨as, e, g, hitems, he, hg, hitems.eval_many_eq_ok hcall hp hc hg, hwhole, rfl, ?_⟩
  rw [Failure.furthest_comm]
  exact Failure.pos_le_furthest g ⟨e.pos, .endOfInput⟩

/-- An `a` with a `b` after it. -/
def twoLetters : PieParser Char := (Parser.char 'a').andThen (.char 'b')

/-- Two of them and half of one: where the half one begins the end is missed, and further on its `b`. -/
theorem manyTill_eof_half :
    ∃ f : Failure, f.pos = ⟨1, 6⟩ ∧
      Grammar.rules.run nestingCeiling memorySource (twoLetters.manyTill .eof)
        (.start "ababac".toList) = .fail f ∧
      Grammar.rules.run nestingCeiling memorySource (twoLetters.many.followedBy .eof)
        (.start "ababac".toList) = .fail ⟨⟨1, 5⟩, .endOfInput⟩ := by
  have hcall := Grammar.rules.call_reaches memorySource nestingCeiling
  have hmoves : twoLetters.Moves (Grammar.rules.call memorySource nestingCeiling) memorySource
      "ababac".toList :=
    ((Parser.consumes_char 'b').after hcall).moves hcall
  obtain ⟨f, hf, hpos⟩ := exists_fail_of_failedAt? (q := ⟨1, 6⟩)
    (show failedAt? (Grammar.rules.run nestingCeiling memorySource (twoLetters.manyTill .eof)
      (.start "ababac".toList)) = _ by decide +kernel)
  obtain ⟨as, e, g, -, -, -, hmany, hwhole, -, -⟩ :=
    (manyTill_eof hmoves (Cursor.start_at _)).2.2.2.2 f hf
  have hread : reached? (Grammar.rules.run nestingCeiling memorySource twoLetters.many
      (.start "ababac".toList)) = some ((Cursor.start "ababac".toList).skip "abab".toList) := by
    decide +kernel
  rw [hmany] at hread
  rw [Option.some.inj hread] at hwhole
  exact ⟨f, hpos, hf, hwhole⟩

/-- An `a`, or else a repetition of nothing, which is broken off before an `a` is looked for again. -/
def letterOrStall : PieParser Char :=
  (Parser.char 'a').orElse ((Parser.many (.pure ())).andThen (.char 'a'))

/-- It never succeeds without moving on, and where the text ends a plain repetition of it is broken off,
while the one up to the end has seen that no item is left. -/
theorem manyTill_eof_unseen :
    (∀ text, letterOrStall.Moves (Grammar.rules.call memorySource nestingCeiling) memorySource text) ∧
    Grammar.rules.run nestingCeiling memorySource (letterOrStall.manyTill .eof)
      (.start "a".toList) = .ok ['a'] ((Cursor.start "a".toList).skip "a".toList) ∧
    ∀ as e, Grammar.rules.run nestingCeiling memorySource (letterOrStall.many.followedBy .eof)
      (.start "a".toList) ≠ .ok as e := by
  have hcall := Grammar.rules.call_reaches memorySource nestingCeiling
  have hletter : Parser.Consumes (Grammar.rules.call memorySource nestingCeiling) memorySource
    (.char 'a' : PieParser Char) := Parser.consumes_char 'a'
  refine ⟨fun _ => (hletter.orElse (hletter.after hcall)).moves hcall, rfl, fun as e h => ?_⟩
  cases h

namespace Grammar

open PieSyntax.Parser

variable {source : String} {k : Nat} {c e : Cursor} {text : Text} {ts : List TopLevel}

/-- At the end of the text no form is tried in earnest. -/
theorem exists_run_topLevel_eq_fail (hc : c.rest = []) :
    ∃ f, rules.run k source topLevel c = .fail f := by
  have hnone : ∀ v, (Tails.empty False) v → (c.rest ++ v).head? = none := by
    intro v hv
    rw [hc, show v = [] from hv]
    rfl
  have hexpr : Declines (rules.call source k) source (.empty False) expr c :=
    declines_expr fun v hv ch hch => by rw [hnone v hv] at hch; cases hch
  have hcommand : Declines (rules.call source k) source (.empty False)
      (parensLocated skip (dispatch commandTable commandBody)) c :=
    Declines.parensLocated fun v hv hhead => by rw [hnone v hv] at hhead; cases hhead
  exact (Declines.orElse hcommand (Declines.map _ hexpr)).eval_fail

theorem moves_topLevel : topLevel.Moves (rules.call source k) source text :=
  consumes_topLevel.moves (rules.call_reaches source k)

/-- The forms up to the end of a text can be read by either repetition. -/
theorem run_forms_eq_ok_iff (hc : c.At text) :
    rules.run k source (topLevel.many.followedBy .eof) c = .ok ts e ↔
      rules.run k source (topLevel.manyTill .eof) c = .ok ts e := by
  obtain ⟨as, d, -, -, hends⟩ :=
    exists_endsAlike (rules.call_reaches source k) moves_topLevel hc
  rw [Rules.run, Rules.run]
  generalize (topLevel.manyTill .eof).eval (rules.call source k) source c = till at hends ⊢
  generalize (topLevel.many.followedBy .eof).eval (rules.call source k) source c = whole at hends ⊢
  cases hends with
  | accepted hend h => rfl
  | unseen hend h =>
      obtain ⟨f, hf⟩ := exists_run_topLevel_eq_fail hend
      cases hf.symm.trans h
  | rejected hrest h => simp
  | brokenOff hrest h => rfl

end Grammar

end PieSyntax
