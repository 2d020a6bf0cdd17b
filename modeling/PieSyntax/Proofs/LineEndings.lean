import PieSyntax.Proofs.FormByForm
import PieSyntax.Proofs.InputEnd
import PieSyntax.Proofs.Resuming

/-!
# Line endings

A carriage return before every newline changes nothing but how far a reader has to go: positions
count lines, and within a line the characters since the last newline, so the returns leave no trace in
them.

Two cursors are twins when the one stands where the other does, and has the same text to read with the
returns put in.  From twins all parsers but trivia go the same way and arrive at twins, since none of
them reads a newline and none of them reads a return.  Trivia read both, the return as whitespace or as
the end of a line comment, so between the two characters their runs are out of step: for one piece of
trivia at a newline the other run takes two.

## Main results

* `Position.advance_withReturns` — positions do not see the returns.
* `Grammar.ignoresReturns_trivia` — trivia arrive at twins again.
* `Grammar.ignoresReturns_topLevel`, `EntryPoint.ignoresReturns` — so do forms and whole texts.
* `lineEndings_immaterial` — programs, expressions and sessions.
-/

namespace PieSyntax

variable {ceiling : Nat}

/-! ## Texts and positions -/

/-- The text with a carriage return before every newline. -/
def withReturns (text : Text) : Text :=
  text.flatMap fun ch => if ch = '\n' then ['\r', '\n'] else [ch]

@[simp] theorem withReturns_nil : withReturns [] = [] := rfl

@[simp] theorem withReturns_newline (s : Text) :
    withReturns ('\n' :: s) = '\r' :: '\n' :: withReturns s := rfl

theorem withReturns_cons {ch : Char} (h : ch ≠ '\n') (s : Text) :
    withReturns (ch :: s) = ch :: withReturns s := by
  simp [withReturns, h]

@[simp] theorem withReturns_append (s t : Text) :
    withReturns (s ++ t) = withReturns s ++ withReturns t :=
  List.flatMap_append

theorem withReturns_of_not_mem {s : Text} (h : '\n' ∉ s) : withReturns s = s := by
  induction s with
  | nil => rfl
  | cons ch s ih =>
      obtain ⟨hch, hs⟩ := not_or.mp (mt List.mem_cons.mpr h)
      rw [withReturns_cons (Ne.symm hch), ih hs]

theorem withReturns_eq_nil_iff {s : Text} : withReturns s = [] ↔ s = [] := by
  constructor
  · intro h
    cases s with
    | nil => rfl
    | cons ch s =>
        by_cases hch : ch = '\n'
        · rw [hch, withReturns_newline] at h
          cases h
        · rw [withReturns_cons hch] at h
          cases h
  · rintro rfl
    rfl

/-- A return is crossed to the right, and the newline after it opens the same line all the same. -/
theorem Position.advance_withReturns (p : Position) (s : Text) :
    p.advance (withReturns s) = p.advance s := by
  induction s generalizing p with
  | nil => rfl
  | cons ch s ih =>
      by_cases hch : ch = '\n'
      · rw [hch, withReturns_newline, advance_cons, advance_cons, advance_cons, ih]
        rfl
      · rw [withReturns_cons hch, advance_cons, advance_cons, ih]

/-! ## Twins -/

/-- The second cursor stands where the first one does, before the same text with the returns. -/
structure Cursor.Twins (c c' : Cursor) : Prop where
  rest : c'.rest = withReturns c.rest
  pos : c'.pos = c.pos

namespace Cursor

variable {c c' d d' : Cursor}

theorem twins_start (text : Text) : (start text).Twins (start (withReturns text)) := ⟨rfl, rfl⟩

theorem Twins.skip {u r : Text} (h : c.Twins c') (hr : c.rest = u ++ r) :
    (c.skip u).Twins (c'.skip (withReturns u)) := by
  have hr' : c'.rest = withReturns u ++ withReturns r := by rw [h.rest, hr, withReturns_append]
  refine ⟨?_, ?_⟩
  · rw [rest_skip hr, rest_skip hr']
  · show c'.pos.advance (withReturns u) = c.pos.advance u
    rw [Position.advance_withReturns, h.pos]

theorem Twins.rest_cons {ch : Char} {r : Text} (h : c.Twins c') (hr : c.rest = ch :: r)
    (hch : ch ≠ '\n') : c'.rest = ch :: withReturns r := by
  rw [h.rest, hr, withReturns_cons hch]

theorem Twins.nil_iff (h : c.Twins c') : c'.rest = [] ↔ c.rest = [] := by
  rw [h.rest, withReturns_eq_nil_iff]

/-- Of two runs between twins, the one has moved if the other has. -/
theorem Twins.offset_eq_iff (h : c.Twins c') (hd : d.Twins d') (hreach : c.Reaches d)
    (hreach' : c'.Reaches d') : d'.offset = c'.offset ↔ d.offset = c.offset := by
  constructor
  · intro hoff
    by_contra hne
    obtain ⟨u, hu⟩ := hreach
    obtain ⟨u', hu'⟩ := hreach'
    have hnil : u' = [] := List.length_eq_zero_iff.mp (by have := hu'.offset; omega)
    have hmoved : withReturns u = [] := by
      have hrest := hu'.rest
      rw [hnil, h.rest, hd.rest, hu.rest, withReturns_append] at hrest
      exact List.append_left_eq_self.mp hrest
    rw [withReturns_eq_nil_iff] at hmoved
    exact hne (by rw [hu.offset, hmoved]; rfl)
  · intro hoff
    by_contra hne
    obtain ⟨u, hu⟩ := hreach
    have hnil : u = [] := List.length_eq_zero_iff.mp (by have := hu.offset; omega)
    have hlt := hreach'.rest_lt hne
    have hrest := hu.rest
    rw [hnil, List.nil_append] at hrest
    rw [hd.rest, h.rest, hrest] at hlt
    omega

end Cursor

/-! ## Outcomes -/

namespace Outcome

variable {α β : Type}

/-- Two runs that end alike, with the same value at twins or with the same failure or interruption. -/
inductive Twins : Outcome α → Outcome α → Prop where
  | ok (a : α) {d d' : Cursor} (h : d.Twins d') : Twins (.ok a d) (.ok a d')
  | fail (f : Failure) : Twins (.fail f) (.fail f)
  | interrupted (why : Interruption) : Twins (.interrupted why) (.interrupted why)

theorem Twins.failAt {c c' : Cursor} (h : c.Twins c') (e : Expectation) :
    Twins (failAt c e : Outcome α) (failAt c' e) := by
  rw [Outcome.failAt, Outcome.failAt, h.pos]
  exact .fail _

theorem Twins.andThen {o o' : Outcome α} {next next' : α → Cursor → Outcome β} (h : o.Twins o')
    (hnext : ∀ a d d', o = .ok a d → o' = .ok a d' → d.Twins d' →
      (next a d).Twins (next' a d')) : (o.andThen next).Twins (o'.andThen next') := by
  cases h with
  | ok a hd => exact hnext a _ _ rfl rfl hd
  | fail f => exact .fail f
  | interrupted why => exact .interrupted why

theorem Twins.orElse {o o' : Outcome α} {other other' : Unit → Outcome α} (h : o.Twins o')
    (hother : (other ()).Twins (other' ())) : (o.orElse other).Twins (o'.orElse other') := by
  cases h with
  | ok a hd => exact .ok a hd
  | interrupted why => exact .interrupted why
  | fail f =>
      unfold Outcome.orElse
      generalize other () = p at hother
      generalize other' () = p' at hother
      cases hother with
      | ok a hd => exact .ok a hd
      | fail g => exact .fail _
      | interrupted why => exact .interrupted why

end Outcome

/-! ## Parsers that read no newline -/

namespace Cursor

variable {c c' : Cursor}

/-- Where no newline comes next, a character is read or refused alike. -/
theorem Twins.readChar_of_head {test : Char → Bool} {e : Expectation} (h : c.Twins c')
    (hhead : c.rest.head? ≠ some '\n') : (c.readChar test e).Twins (c'.readChar test e) := by
  unfold readChar
  cases hr : c.rest with
  | nil =>
      rw [h.nil_iff.mpr hr]
      exact .failAt h _
  | cons ch r =>
      have hch : ch ≠ '\n' := fun heq => hhead (by rw [hr, heq]; rfl)
      rw [h.rest_cons hr hch]
      by_cases ht : test ch = true
      · simp only [ht, if_true]
        exact .ok ch ⟨rfl, by rw [h.pos]⟩
      · simp only [ht]
        exact .failAt h e

/-- A newline is refused where a return is. -/
theorem Twins.readChar {test : Char → Bool} {e : Expectation} (h : c.Twins c')
    (hreturn : test '\r' = false) (hnewline : test '\n' = false) :
    (c.readChar test e).Twins (c'.readChar test e) := by
  by_cases hhead : c.rest.head? = some '\n'
  · obtain ⟨r, hr⟩ := List.head?_eq_some_iff.mp hhead
    have hr' : c'.rest = '\r' :: '\n' :: withReturns r := by rw [h.rest, hr, withReturns_newline]
    unfold Cursor.readChar
    rw [hr, hr']
    simp only [hreturn, hnewline]
    exact .failAt h e
  · exact h.readChar_of_head hhead

theorem Twins.readText {s : Text} (h : c.Twins c') (hreturn : '\r' ∉ s) (hnewline : '\n' ∉ s) :
    (c.readText s).Twins (c'.readText s) := by
  induction s generalizing c c' with
  | nil => exact .ok () h
  | cons ch s ih =>
      obtain ⟨hch, hs⟩ := not_or.mp (mt List.mem_cons.mpr hreturn)
      obtain ⟨hch', hs'⟩ := not_or.mp (mt List.mem_cons.mpr hnewline)
      exact (h.readChar (decide_eq_false hch) (decide_eq_false hch')).andThen
        fun _ _ _ _ _ hd => ih hd hs hs'

end Cursor

namespace Parser

variable {N : Type} {R : N → Type} {α β : Type}

/-- The parser ends alike on a text and on the text with the returns. -/
def IgnoresReturns (call : (n : N) → Cursor → Outcome (R n)) (source : String) (p : Parser N R α) :
    Prop :=
  ∀ c c', c.Twins c' → (p.eval call source c).Twins (p.eval call source c')

variable {call : (n : N) → Cursor → Outcome (R n)} {source : String} {p q : Parser N R α}

theorem ignoresReturns_text {s : Text} (hreturn : '\r' ∉ s) (hnewline : '\n' ∉ s) :
    IgnoresReturns call source (.text s : Parser N R Text) :=
  fun _ _ h => (h.readText hreturn hnewline).andThen fun _ _ _ _ _ hd => .ok s hd

theorem ignoresReturns_eof : IgnoresReturns call source (.eof : Parser N R Unit) := by
  intro c c' h
  unfold eval Cursor.atEnd
  simp only [List.isEmpty_iff, h.nil_iff]
  split
  · exact .ok () h
  · exact .failAt h _

theorem IgnoresReturns.refine {judge : α → Verdict β} (h : IgnoresReturns call source p) :
    IgnoresReturns call source (p.refine judge) := by
  intro c c' hc
  refine (h c c' hc).andThen fun a d d' _ _ hd => ?_
  cases judge a with
  | accept b => exact .ok b hd
  | reject e => exact .failAt hc e
  | interrupt why => exact .interrupted why

theorem IgnoresReturns.bind {next : α → Parser N R β} (h : IgnoresReturns call source p)
    (hnext : ∀ a, IgnoresReturns call source (next a)) :
    IgnoresReturns call source (p.bind next) :=
  fun c c' hc => (h c c' hc).andThen fun a d d' _ _ hd => hnext a d d' hd

theorem IgnoresReturns.andThen {r : Parser N R β} (h : IgnoresReturns call source p)
    (hr : IgnoresReturns call source r) : IgnoresReturns call source (p.andThen r) :=
  h.bind fun _ => hr

theorem IgnoresReturns.followedBy {r : Parser N R β} (h : IgnoresReturns call source p)
    (hr : IgnoresReturns call source r) : IgnoresReturns call source (p.followedBy r) :=
  h.bind fun _ => hr.refine

theorem IgnoresReturns.orElse (hp : IgnoresReturns call source p)
    (hq : IgnoresReturns call source q) : IgnoresReturns call source (p.orElse q) :=
  fun c c' hc => by
    rw [eval_orElse, eval_orElse]
    exact (hp c c' hc).orElse (hq c c' hc)

/-- Spans are the same, since positions are. -/
theorem IgnoresReturns.located (h : IgnoresReturns call source p) :
    IgnoresReturns call source p.located := by
  intro c c' hc
  refine (h c c' hc).andThen fun a d d' _ _ hd => ?_
  rw [hc.pos, hd.pos]
  exact .ok _ hd

/-- Where the first of two parsers is read alike and is not read, the second one is not asked. -/
theorem twins_andThen_of_ne_ok {r : Parser N R β} {c c' : Cursor}
    (h : (p.eval call source c).Twins (p.eval call source c'))
    (hnone : ∀ a d, p.eval call source c ≠ .ok a d) :
    ((p.andThen r).eval call source c).Twins ((p.andThen r).eval call source c') ∧
      ∀ b d, (p.andThen r).eval call source c ≠ .ok b d := by
  refine ⟨h.andThen fun a d d' hok _ _ => absurd hok (hnone a d), fun b d hok => ?_⟩
  obtain ⟨a, d', hp, -⟩ := eval_andThen_ok hok
  exact hnone a d' hp

theorem twins_describe (description : String) {c c' : Cursor} (hc : c.Twins c')
    (h : (p.eval call source c).Twins (p.eval call source c')) :
    ((p.describe description).eval call source c).Twins
      ((p.describe description).eval call source c') := by
  rw [Parser.describe, Parser.eval, Parser.eval, eval_orElse, eval_orElse]
  exact h.orElse (.failAt hc _)

/-- Alternatives that end alike at two cursors. -/
theorem twins_choice {ps : List (Parser N R α)} {c c' : Cursor} (hc : c.Twins c')
    (h : ∀ p ∈ ps, (p.eval call source c).Twins (p.eval call source c')) :
    ((choice ps).eval call source c).Twins ((choice ps).eval call source c') := by
  refine choice_induction call source
    (motive := fun p => (p.eval call source c).Twins (p.eval call source c')) ?same ?fail ?orElse h
  case same => exact fun _ _ heq hp => heq ▸ hp
  case fail => exact .failAt hc .generic
  case orElse =>
    intro p q hp hq
    rw [eval_orElse, eval_orElse]
    exact hp.orElse hq

section

variable (hcall : ∀ n c, (call n c).AheadOf c)

include hcall

/-- The rounds of the two runs go side by side. -/
theorem IgnoresReturns.many (h : IgnoresReturns call source p) :
    IgnoresReturns call source p.many := by
  intro c c' hc
  induction c using Cursor.forward_induction generalizing c' with
  | step c ih =>
      have hahead := eval_reaches hcall source p c
      have hahead' := eval_reaches hcall source p c'
      have hround := h c c' hc
      rw [eval_many hcall, eval_many hcall]
      generalize p.eval call source c = o at hahead hround
      generalize p.eval call source c' = o' at hahead' hround
      cases hround with
      | fail f => exact .ok [] hc
      | interrupted why => exact .interrupted why
      | @ok a d d' hd =>
          have hmoved := hc.offset_eq_iff hd hahead hahead'
          by_cases hstill : d.offset = c.offset
          · simp only [hstill, hmoved.mpr hstill, if_true, hc.pos]
            exact .interrupted _
          · have hlt := Cursor.Reaches.rest_lt hahead hstill
            simp only [hstill, mt hmoved.mp hstill, if_false]
            exact (ih d hlt d' hd).andThen fun as e e' _ _ he => .ok _ he

theorem IgnoresReturns.manyTill {stop : Parser N R β} (h : IgnoresReturns call source p)
    (hstop : IgnoresReturns call source stop) : IgnoresReturns call source (p.manyTill stop) := by
  intro c c' hc
  induction c using Cursor.forward_induction generalizing c' with
  | step c ih =>
      have hahead := eval_reaches hcall source p c
      have hahead' := eval_reaches hcall source p c'
      have hround := h c c' hc
      have hends := hstop c c' hc
      rw [eval_manyTill hcall, eval_manyTill hcall]
      generalize stop.eval call source c = s at hends
      generalize stop.eval call source c' = s' at hends
      generalize p.eval call source c = o at hahead hround
      generalize p.eval call source c' = o' at hahead' hround
      cases hends with
      | ok b hd => exact .ok [] hd
      | interrupted why => exact .interrupted why
      | fail g =>
          cases hround with
          | fail f => exact .fail _
          | interrupted why => exact .interrupted why
          | @ok a d d' hd =>
              have hmoved := hc.offset_eq_iff hd hahead hahead'
              by_cases hstill : d.offset = c.offset
              · simp only [hstill, hmoved.mpr hstill, if_true, hc.pos]
                exact .interrupted _
              · have hlt := Cursor.Reaches.rest_lt hahead hstill
                simp only [hstill, mt hmoved.mp hstill, if_false]
                exact (ih d hlt d' hd).andThen fun as e e' _ _ he => .ok _ he

end

end Parser

/-! ## Trivia -/

namespace Grammar

open PieSyntax.Parser

variable {source : String} {k : Nat} {c c' : Cursor}

/-- A line comment that a newline ends also ends with a return before it, which belongs to the
comment. -/
theorem twins_triviaItem_of_semicolon {r : Text} (hc : c.Twins c') (hr : c.rest = ';' :: r) :
    (triviaItem.eval (rules.call source k) source c).Twins
      (triviaItem.eval (rules.call source k) source c') := by
  have hr' := hc.rest_cons hr (by decide)
  by_cases hnewline : '\n' ∈ r
  · obtain ⟨body, s, rfl, hbody⟩ := List.eq_append_cons_of_mem hnewline
    have hbody' : '\n' ∉ body ++ ['\r'] := by simp [hbody]
    rw [withReturns_append, withReturns_newline, withReturns_of_not_mem hbody] at hr'
    have hline : triviaItem.eval (rules.call source k) source c = .ok () _ :=
      (returns_line (V := .empty False) hbody hr).eval_ok
    have hline' : triviaItem.eval (rules.call source k) source c' = .ok () _ :=
      (returns_line (V := .empty False) hbody' (r := withReturns s) (by simpa using hr')).eval_ok
    have hskip := hc.skip (u := ';' :: (body ++ ['\n'])) (r := s) (by simpa using hr)
    rw [withReturns_cons (by decide), withReturns_append, withReturns_of_not_mem hbody] at hskip
    rw [hline, hline']
    exact .ok () (by simpa using hskip)
  · have hlast : triviaItem.eval (rules.call source k) source c = .ok () _ :=
      (returns_lastLine (V := .empty False) hnewline hr fun v hv => hv).eval_ok
    rw [withReturns_of_not_mem hnewline] at hr'
    have hlast' : triviaItem.eval (rules.call source k) source c' = .ok () _ :=
      (returns_lastLine (V := .empty False) hnewline hr' fun v hv => hv).eval_ok
    have hskip := hc.skip (u := ';' :: r) (r := []) (by simpa using hr)
    rw [withReturns_cons (by decide), withReturns_of_not_mem hnewline] at hskip
    rw [hlast, hlast']
    exact .ok () hskip

/-- Where no line comment starts, none is read. -/
theorem twins_lineComment (hc : c.Twins c') (hhead : c.rest.head? ≠ some ';') :
    (lineComment.eval (rules.call source k) source c).Twins
      (lineComment.eval (rules.call source k) source c') := by
  have hsemicolon : ((Parser.char ';' : PieParser Char).eval (rules.call source k) source c).Twins
      ((Parser.char ';' : PieParser Char).eval (rules.call source k) source c') :=
    hc.readChar (by decide) (by decide)
  have hnone : ∀ a d, (Parser.char ';' : PieParser Char).eval (rules.call source k) source c ≠
      .ok a d := by
    intro a d hok
    obtain ⟨-, ⟨r, hr⟩, -⟩ := eval_char_ok _ _ hok
    exact hhead (by rw [hr]; rfl)
  obtain ⟨hspan, hspan'⟩ := twins_andThen_of_ne_ok hsemicolon hnone
  obtain ⟨hline, -⟩ := twins_andThen_of_ne_ok hspan hspan'
  exact twins_describe _ hc hline

/-- Where no newline comes next, a piece of trivia is read alike, provided that data are. -/
theorem twins_triviaItem
    (hcalls : Inherited (IgnoresReturns (rules.call source k) source)) (hc : c.Twins c')
    (hhead : c.rest.head? ≠ some '\n') :
    (triviaItem.eval (rules.call source k) source c).Twins
      (triviaItem.eval (rules.call source k) source c') := by
  by_cases hsemicolon : c.rest.head? = some ';'
  · obtain ⟨r, hr⟩ := List.head?_eq_some_iff.mp hsemicolon
    exact twins_triviaItem_of_semicolon hc hr
  · refine twins_choice hc fun p hp => ?_
    rcases List.mem_append.mp hp with hp | hp
    · obtain ⟨ch, -, rfl⟩ := List.mem_map.mp hp
      exact (hc.readChar_of_head hhead).andThen fun _ _ _ _ _ hd => .ok () hd
    · simp only [List.mem_cons, List.not_mem_nil, or_false] at hp
      rcases hp with rfl | rfl
      · exact twins_lineComment hc hsemicolon
      · exact hcalls.datumComment c c' hc

/-- A newline is one piece of trivia, and two with a return before it. -/
theorem ignoresReturns_trivia
    (hcalls : Inherited (IgnoresReturns (rules.call source k) source)) :
    IgnoresReturns (rules.call source k) source trivia := by
  intro c c' hc
  induction c using Cursor.forward_induction generalizing c' with
  | step c ih =>
      by_cases hhead : c.rest.head? = some '\n'
      · obtain ⟨r, hr⟩ := List.head?_eq_some_iff.mp hhead
        have hr' : c'.rest = '\r' :: '\n' :: withReturns r := by
          rw [hc.rest, hr, withReturns_newline]
        have hr₁ := Cursor.rest_skip (u := ['\r']) hr'
        rw [eval_trivia_of_returns (returns_white (by decide) hr),
          eval_trivia_of_returns (returns_white (by decide) hr'),
          eval_trivia_of_returns (returns_white (by decide) hr₁)]
        have hd := hc.skip (u := ['\n']) hr
        have hlen := congrArg List.length hr
        rw [← Cursor.rest_skip (u := ['\n']) hr, List.length_cons] at hlen
        rw [Cursor.skip_skip]
        exact ih _ (by omega) _ hd
      · have hitem := twins_triviaItem hcalls hc hhead
        cases ho : triviaItem.eval (rules.call source k) source c with
        | ok u d =>
            rw [ho] at hitem
            generalize ho' : triviaItem.eval (rules.call source k) source c' = o' at hitem
            cases hitem with
            | ok _ hd =>
                rw [eval_trivia_of_item ho, eval_trivia_of_item ho']
                exact ih d (consumes_triviaItem c u d ho) _ hd
        | fail f =>
            rw [ho] at hitem
            generalize ho' : triviaItem.eval (rules.call source k) source c' = o' at hitem
            cases hitem
            rw [eval_trivia_of_stuck ⟨f, ho⟩, eval_trivia_of_stuck ⟨f, ho'⟩]
            exact .ok () hc
        | interrupted why =>
            rw [ho] at hitem
            generalize ho' : triviaItem.eval (rules.call source k) source c' = o' at hitem
            cases hitem
            rw [eval_trivia_of_interrupted ho, eval_trivia_of_interrupted ho']
            exact .interrupted why

/-! ## The productions -/

/-- Parsers that read no newline, as long as the productions that they call ignore returns. -/
theorem inherited_ignoresReturns
    (hcalls : ∀ n, IgnoresReturns (rules.call source k) source (.call n)) :
    Inherited (IgnoresReturns (rules.call source k) source) where
  pure a := fun _ _ hc => .ok a hc
  fail _ := fun _ _ hc => .failAt hc _
  char h := fun _ _ hc => hc.readChar (decide_eq_false fun he => h (he ▸ by decide))
    (decide_eq_false fun he => h (he ▸ by decide))
  satisfy _ _ h := fun _ _ hc => hc.readChar (h '\r' (by decide)) (h '\n' (by decide))
  text h := ignoresReturns_text (fun hr => h '\r' hr (by decide)) fun hn => h '\n' hn (by decide)
  refine hp _ := hp.refine
  bind hp hnext := hp.bind hnext
  orElse _ hp hq := hp.orElse hq
  choice _ hall := fun _ _ hc => twins_choice hc fun p hp => hall p hp _ _ hc
  many hp := hp.many (rules.call_reaches source k)
  located hp := hp.located
  named _ hp := hp
  call n := hcalls n

theorem ignoresReturns_call (source : String) (k : Nat) (n : Production) :
    IgnoresReturns (rules.call source k) source (.call n) := by
  induction k generalizing n with
  | zero => exact fun _ _ _ => .interrupted .tooDeep
  | succ k ih =>
      have hinherited := inherited_ignoresReturns ih
      cases n with
      | spacing => exact ignoresReturns_trivia hinherited
      | datum => exact hinherited.anyDatum
      | expr => exact hinherited.expr

theorem inherited_ignoresReturns_call (source : String) (k : Nat) :
    Inherited (IgnoresReturns (rules.call source k) source) :=
  inherited_ignoresReturns (ignoresReturns_call source k)

theorem ignoresReturns_program : IgnoresReturns (rules.call source k) source program := by
  have hinherited := inherited_ignoresReturns_call source k
  refine ((ignoresReturns_text (by decide) (by decide)).andThen
    (ignoresReturns_trivia hinherited)).andThen ?_
  exact hinherited.topLevel.manyTill (rules.call_reaches source k) ignoresReturns_eof

theorem ignoresReturns_expressionParser (allowTrailing : Bool) :
    IgnoresReturns (rules.call source k) source (expressionParser allowTrailing) := by
  have hinherited := inherited_ignoresReturns_call source k
  have hexpr : IgnoresReturns (rules.call source k) source (trivia.andThen expr) :=
    (ignoresReturns_trivia hinherited).andThen hinherited.expr
  cases allowTrailing with
  | true => exact hexpr
  | false => exact hexpr.followedBy ignoresReturns_eof

end Grammar

/-! ## Nesting that is too deep -/

/-- A return moves the scan to the right and does nothing else. -/
theorem NestingScan.step_newline (s : NestingScan) :
    (s.step '\r').step '\n' = s.step '\n' := by
  obtain ⟨pos, depth, deepest, deepestPos, inComment⟩ := s
  cases inComment <;> rfl

/-- The deepest parenthesis stands where it stood. -/
theorem deepestOpenParen_eq {c c' : Cursor} (h : c.Twins c') :
    deepestOpenParen c' = deepestOpenParen c := by
  have hscan : ∀ (s : NestingScan) (u : Text),
      (withReturns u).foldl NestingScan.step s = u.foldl NestingScan.step s := by
    intro s u
    induction u generalizing s with
    | nil => rfl
    | cons ch u ih =>
        by_cases hch : ch = '\n'
        · rw [hch, withReturns_newline, List.foldl_cons, List.foldl_cons, List.foldl_cons,
            NestingScan.step_newline, ih]
        · rw [withReturns_cons hch, List.foldl_cons, List.foldl_cons, ih]
  rw [deepestOpenParen, deepestOpenParen, h.rest, h.pos, hscan]

/-! ## The entry points -/

/-- The same is reported: the same place, payload and message, in the same source. -/
structure Report.Alike (r r' : Report) : Prop where
  source : r'.source = r.source
  failure : r'.failure = r.failure
  detail : r'.detail = r.detail
  message : r'.message = r.message

/-- A report alike, or the same interruption. -/
inductive ReadError.Alike : ReadError → ReadError → Prop where
  | report {r r' : Report} (h : r.Alike r') : Alike (.report r) (.report r')
  | interrupted (why : Interruption) : Alike (.interrupted why) (.interrupted why)

/-- The same value is returned, or an error alike. -/
inductive ReadAlike {α : Type} : Except ReadError α → Except ReadError α → Prop where
  | ok (a : α) : ReadAlike (.ok a) (.ok a)
  | error {e e' : ReadError} (h : e.Alike e') : ReadAlike (.error e) (.error e')

/-- The same forms are read, and then the text ends or an error alike does. -/
structure FormSequence.Alike (s s' : FormSequence) : Prop where
  forms : s'.forms = s.forms
  ending : Option.Rel ReadError.Alike s.ending s'.ending

variable {source : String} {text : Text} {c c' : Cursor} {α : Type}

/-- Whether a report stands before the end of the text is not changed by the returns. -/
theorem Report.alike_withReturns (source : String) (f : Failure) (detail : Option String) :
    Report.Alike ⟨source, f, some text, detail⟩
      ⟨source, f, some (withReturns text), detail⟩ := by
  have hbefore : Report.beforeEnd ⟨source, f, some (withReturns text), detail⟩ =
      Report.beforeEnd ⟨source, f, some text, detail⟩ :=
    congrArg (fun p => decide (f.pos < p)) (Position.advance_withReturns _ _)
  refine ⟨rfl, rfl, rfl, ?_⟩
  rw [Report.message, Report.message, hbefore]

theorem tooDeepReport_alike (h : c.Twins c') :
    (tooDeepReport source text c).Alike (tooDeepReport source (withReturns text) c') := by
  rw [tooDeepReport, tooDeepReport, deepestOpenParen_eq h]
  exact Report.alike_withReturns _ _ _

/-- How reading from a cursor ends, on two texts. -/
inductive ReadFromAlike :
    Except ReadError (Progress α) → Except ReadError (Progress α) → Prop where
  | ok (a : α) {d d' : Cursor} (h : d.Twins d') : ReadFromAlike (.ok ⟨a, d⟩) (.ok ⟨a, d'⟩)
  | error {e e' : ReadError} (h : e.Alike e') : ReadFromAlike (.error e) (.error e')

theorem readFrom_alike {p : PieParser α}
    (hp : Parser.IgnoresReturns (Grammar.rules.call source ceiling) source p)
    (h : c.Twins c') :
    ReadFromAlike (readFrom source text c p ceiling)
      (readFrom source (withReturns text) c' p ceiling) := by
  have hrun : (Grammar.rules.run ceiling source p c).Twins
    (Grammar.rules.run ceiling source p c') := hp c c' h
  rw [readFrom, readFrom]
  generalize Grammar.rules.run ceiling source p c = o at hrun
  generalize Grammar.rules.run ceiling source p c' = o' at hrun
  cases hrun with
  | ok a hd => exact .ok a hd
  | fail f => exact .error (.report (Report.alike_withReturns _ _ _))
  | interrupted why =>
      cases why with
      | tooDeep => exact .error (.report (tooDeepReport_alike h))
      | stalled loop label pos => exact .error (.interrupted _)
      | numeralTooLong e => exact .error (.interrupted _)
      | sourceMismatch mismatch => exact .error (.interrupted _)
      | refused reason => exact .error (.interrupted _)

theorem EntryPoint.ignoresReturns (e : EntryPoint) (source : String) (k : Nat) :
    Parser.IgnoresReturns (Grammar.rules.call source k) source e.parser := by
  cases e with
  | program => exact Grammar.ignoresReturns_program
  | expression allowTrailing => exact Grammar.ignoresReturns_expressionParser allowTrailing

theorem EntryPoint.read_alike (e : EntryPoint) (source : String) (text : Text) :
    ReadAlike (e.read source text ceiling) (e.read source (withReturns text) ceiling) := by
  have hread : ReadFromAlike (readFrom source text (.start text) e.parser ceiling)
      (readFrom source (withReturns text) (.start (withReturns text)) e.parser ceiling) :=
    readFrom_alike (e.ignoresReturns source ceiling) (Cursor.twins_start text)
  rw [e.read_eq, e.read_eq]
  generalize readFrom source text (.start text) e.parser ceiling = o at hread
  generalize readFrom source (withReturns text) (.start (withReturns text)) e.parser ceiling = o'
    at hread
  cases hread with
  | ok a hd => exact .ok a
  | error h => exact .error h

/-- A session on the one text and on the other, form by form. -/
theorem session_alike (h : c.Twins c') :
    (session source text c ceiling).Alike (session source (withReturns text) c' ceiling) := by
  induction c using Cursor.forward_induction generalizing c' with
  | step c ih =>
      by_cases hnil : c.rest = []
      · rw [session_of_nil hnil, session_of_nil (h.nil_iff.mpr hnil)]
        exact ⟨rfl, .none⟩
      · have hread : ReadFromAlike (readFrom source text c Grammar.topLevel ceiling)
            (readFrom source (withReturns text) c' Grammar.topLevel ceiling) :=
          readFrom_alike (Grammar.inherited_ignoresReturns_call source ceiling).topLevel h
        generalize ho : readFrom source text c Grammar.topLevel ceiling = o at hread
        generalize ho' : readFrom source (withReturns text) c' Grammar.topLevel ceiling = o' at hread
        cases hread with
        | error he =>
            rw [session_of_error hnil ho, session_of_error (mt h.nil_iff.mp hnil) ho']
            exact ⟨rfl, .some he⟩
        | ok t hd =>
            have hrun := readFrom_eq_ok_iff.mp ho
            rw [session_of_ok hrun, session_of_ok (readFrom_eq_ok_iff.mp ho')]
            obtain ⟨hforms, hending⟩ := ih _ (length_lt_of_eval_topLevel hrun) hd
            exact ⟨congrArg (t :: ·) hforms, hending⟩

theorem iterForms_alike (source : String) (text : Text) :
    (iterForms source text ceiling).Alike (iterForms source (withReturns text) ceiling) := by
  have hread : ReadFromAlike (readFrom source text (.start text) Grammar.trivia ceiling)
      (readFrom source (withReturns text) (.start (withReturns text)) Grammar.trivia ceiling) :=
    readFrom_alike (Grammar.ignoresReturns_trivia
      (Grammar.inherited_ignoresReturns_call source ceiling)) (Cursor.twins_start text)
  rw [iterForms, iterForms]
  generalize readFrom source text (.start text) Grammar.trivia ceiling = o at hread
  generalize readFrom source (withReturns text) (.start (withReturns text)) Grammar.trivia ceiling = o'
    at hread
  cases hread with
  | ok u hd => exact session_alike hd
  | error h => exact ⟨rfl, .some h⟩

/-- Line endings do not matter.  With a carriage return before every newline a program, an expression
or a session gives the same trees with the same locations, or errors with the same place, payload and
message. -/
theorem lineEndings_immaterial (source : String) (text : Text) :
    (∀ e : EntryPoint,
      ReadAlike (e.read source text ceiling) (e.read source (withReturns text) ceiling)) ∧
      (iterForms source text ceiling).Alike (iterForms source (withReturns text) ceiling) :=
  ⟨fun e => e.read_alike source text, iterForms_alike source text⟩

end PieSyntax
