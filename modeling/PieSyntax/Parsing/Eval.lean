import PieSyntax.Parsing.Parser

/-!
# Running parsers

`Parser.eval` runs a parser from a cursor, given what calls of nonterminals do.  It goes down the
term of the parser; the repetitions go along what is left of the text, one character at least for
each round.

`Rules.run` closes the recursion: a nonterminal runs its rule, and its calls have one level of
nesting less to spend.  A run that finishes within some ceiling does not notice it.
-/

namespace PieSyntax

namespace Outcome

variable {α β : Type}

/-- Rounds of `many`, with the values read so far, the last one first.  Every round that goes on
has read a character, so `fuel`, the text left at the first round, outlasts them all. -/
def manyLoop (item : Cursor → Outcome α) (label : Unit → String) :
    (fuel : Text) → Cursor → List α → Outcome (List α)
  | fuel, c, done =>
    match item c with
    | .fail _ => .ok done.reverse c
    | .interrupted why => .interrupted why
    | .ok a next =>
      if next.offset = c.offset then .interrupted (.stalled .many (label ()) c.pos)
      else
        match fuel with
        | [] => .interrupted (.stalled .many (label ()) c.pos)
        | _ :: fuel => manyLoop item label fuel next (a :: done)

/-- Rounds of `manyTill`, which look for the stop before each item. -/
def manyTillLoop (item : Cursor → Outcome α) (stop : Cursor → Outcome β) (label : Unit → String) :
    (fuel : Text) → Cursor → List α → Outcome (List α)
  | fuel, c, done =>
    match stop c with
    | .ok _ next => .ok done.reverse next
    | .interrupted why => .interrupted why
    | .fail noStop =>
      match item c with
      | .fail noItem => .fail (noStop.furthest noItem)
      | .interrupted why => .interrupted why
      | .ok a next =>
        if next.offset = c.offset then .interrupted (.stalled .manyTill (label ()) c.pos)
        else
          match fuel with
          | [] => .interrupted (.stalled .manyTill (label ()) c.pos)
          | _ :: fuel => manyTillLoop item stop label fuel next (a :: done)

end Outcome

namespace Cursor

/-- Reads one character that passes a test; otherwise fails with `e`. -/
def readChar (test : Char → Bool) (e : Expectation) (c : Cursor) : Outcome Char :=
  match c.rest with
  | [] => .failAt c .endOfInput
  | ch :: rest =>
    if test ch then .ok ch ⟨rest, c.offset + 1, c.pos.advanceChar ch⟩ else .failAt c e

/-- Reads the given characters; fails at the first that differs. -/
def readText : Text → Cursor → Outcome Unit
  | [], c => .ok () c
  | ch :: s, c =>
    (c.readChar (· = ch) (.ofChar ch)).andThen fun _ next => readText s next

end Cursor

namespace Parser

variable {N : Type} {R : N → Type}

/-- Runs a parser in the named source.  `call` runs the nonterminals. -/
def eval (call : (n : N) → Cursor → Outcome (R n)) (source : String) {α : Type} :
    Parser N R α → Cursor → Outcome α
  | .pure a, c => .ok a c
  | .fail e, c => .failAt c e
  | .anyChar, c => c.readChar (fun _ => true) .generic
  | .char ch, c => c.readChar (· = ch) (.ofChar ch)
  | .satisfy description test, c => c.readChar test (.ofDescription description)
  | .text s, c => (c.readText s).andThen fun _ next => .ok s next
  | .spanning test, c =>
    let run := c.rest.takeWhile test
    .ok run (c.skip run)
  | .eof, c => if c.atEnd then .ok () c else .failAt c .endOfInput
  | .refine p judge, c =>
    (p.eval call source c).andThen fun a next =>
      match judge a with
      | .accept b => .ok b next
      | .reject e => .failAt c e
      | .interrupt why => .interrupted why
  | .bind p next, c => (p.eval call source c).andThen fun a c' => (next a).eval call source c'
  | .alternatives first rest, c =>
    (first.eval call source c).choose (List.ofFn fun i _ => (rest i).eval call source c)
  | .many p, c => Outcome.manyLoop (p.eval call source) (fun _ => p.label) c.rest c []
  | .manyTill item stop, c =>
    Outcome.manyTillLoop (item.eval call source) (stop.eval call source) (fun _ => item.label)
      c.rest c []
  | .located p, c =>
    (p.eval call source c).andThen fun a next => .ok ⟨⟨source, c.pos, next.pos⟩, a⟩ next
  | .named _ p, c => p.eval call source c
  | .call n, c => call n c

section

variable {call : (n : N) → Cursor → Outcome (R n)} {source : String} {α : Type}

theorem eval_alternatives_of_ne_fail {n : Nat} {p : Parser N R α} {ps : Fin n → Parser N R α}
    {c : Cursor} (h : ∀ e, p.eval call source c ≠ .fail e) :
    (alternatives p ps).eval call source c = p.eval call source c := by
  rw [eval, Outcome.choose_of_ne_fail h]

/-- The first alternative that does not fail decides. -/
theorem eval_alternatives_of_fails {n : Nat} {p : Parser N R α} {ps : Fin n → Parser N R α}
    {c : Cursor} {i : Fin n} (h : ∃ e, p.eval call source c = .fail e)
    (hs : ∀ j < i, ∃ e, (ps j).eval call source c = .fail e)
    (hi : ∀ e, (ps i).eval call source c ≠ .fail e) :
    (alternatives p ps).eval call source c = (ps i).eval call source c := by
  rw [eval]
  exact Outcome.choose_eq_of_fails h hs hi

/-- A choice goes through its alternatives in order. -/
theorem eval_choice (p : Parser N R α) (ps : List (Parser N R α)) (c : Cursor) :
    (choice (p :: ps)).eval call source c =
      (p.eval call source c).choose (ps.map fun q _ => q.eval call source c) := by
  have hrest : (List.ofFn fun i (_ : Unit) => (ps.get i).eval call source c) =
      ps.map fun q (_ : Unit) => q.eval call source c := List.ext_getElem (by simp) (by simp)
  rw [choice, eval, hrest]

theorem eval_orElse (p q : Parser N R α) (c : Cursor) :
    (p.orElse q).eval call source c =
      (p.eval call source c).orElse fun _ => q.eval call source c := by
  rw [← choice_pair, eval_choice, Outcome.choose_eq_foldl]
  rfl

theorem eval_foldl_orElse (p : Parser N R α) (ps : List (Parser N R α)) (c : Cursor) :
    (ps.foldl orElse p).eval call source c =
      (ps.map fun q _ => q.eval call source c).foldl Outcome.orElse (p.eval call source c) := by
  induction ps generalizing p with
  | nil => rfl
  | cons q ps ih => rw [List.foldl_cons, ih, eval_orElse, List.map_cons, List.foldl_cons]

/-- A choice runs as its alternatives taken two at a time, from the left. -/
theorem eval_choice_eq_foldl (p : Parser N R α) (ps : List (Parser N R α)) :
    (choice (p :: ps)).eval call source = (ps.foldl orElse p).eval call source := by
  funext c
  rw [eval_choice, Outcome.choose_eq_foldl, eval_foldl_orElse]

/-- What `orElse` keeps holds of a choice if it holds of every alternative, provided that it depends
on nothing but runs.  A choice of none fails. -/
theorem choice_induction (call : (n : N) → Cursor → Outcome (R n)) (source : String)
    {motive : Parser N R α → Prop}
    (same : ∀ p q, p.eval call source = q.eval call source → motive p → motive q)
    (fail : motive (.fail .generic))
    (orElse : ∀ p q, motive p → motive q → motive (p.orElse q)) {ps : List (Parser N R α)}
    (h : ∀ p ∈ ps, motive p) : motive (choice ps) := by
  cases ps with
  | nil => exact fail
  | cons p ps =>
      refine same _ _ (eval_choice_eq_foldl p ps).symm ?_
      exact List.foldlRecOn ps _ (h p List.mem_cons_self) fun q hq r hr =>
        orElse q r hq (h r (List.mem_cons_of_mem p hr))

theorem foldl_orElse_of_mem (weak strong : Parser N R α → Prop)
    (orElse : ∀ p q, weak p → weak q → weak (p.orElse q))
    (left : ∀ p q, strong p → weak q → strong (p.orElse q))
    (right : ∀ p q, weak p → strong q → strong (p.orElse q)) {ps : List (Parser N R α)}
    {p : Parser N R α} (hp : weak p) (hall : ∀ q ∈ ps, weak q)
    (hsome : strong p ∨ ∃ q ∈ ps, strong q) : strong (ps.foldl .orElse p) := by
  induction ps generalizing p with
  | nil => exact hsome.resolve_right fun ⟨q, hq, _⟩ => by cases hq
  | cons q ps ih =>
      have hq := hall q List.mem_cons_self
      refine ih (orElse p q hp hq) (fun r hr => hall r (List.mem_cons_of_mem q hr)) ?_
      rcases hsome with hstrong | ⟨r, hr, hstrong⟩
      · exact Or.inl (left p q hstrong hq)
      · rcases List.mem_cons.mp hr with rfl | hr
        · exact Or.inl (right p r hp hstrong)
        · exact Or.inr ⟨r, hr, hstrong⟩

/-- What one alternative has and the others let it keep holds of a choice, provided that it depends
on nothing but runs. -/
theorem choice_of_mem (call : (n : N) → Cursor → Outcome (R n)) (source : String)
    (weak strong : Parser N R α → Prop)
    (same : ∀ p q, p.eval call source = q.eval call source → strong p → strong q)
    (orElse : ∀ p q, weak p → weak q → weak (p.orElse q))
    (left : ∀ p q, strong p → weak q → strong (p.orElse q))
    (right : ∀ p q, weak p → strong q → strong (p.orElse q)) {ps : List (Parser N R α)}
    (hall : ∀ p ∈ ps, weak p) (hsome : ∃ p ∈ ps, strong p) : strong (choice ps) := by
  obtain ⟨p, hp, hstrong⟩ := hsome
  cases ps with
  | nil => cases hp
  | cons q ps =>
      refine same _ _ (eval_choice_eq_foldl q ps).symm ?_
      refine foldl_orElse_of_mem weak strong orElse left right (hall q List.mem_cons_self)
        (fun r hr => hall r (List.mem_cons_of_mem q hr)) ?_
      rcases List.mem_cons.mp hp with rfl | hp
      · exact Or.inl hstrong
      · exact Or.inr ⟨p, hp, hstrong⟩

end

end Parser

/-- A rule system gives every nonterminal its parser. -/
abbrev Rules (N : Type) (R : N → Type) := (n : N) → Parser N R (R n)

namespace Rules

variable {N : Type} {R : N → Type} {α : Type}

/-- Runs a nonterminal with a ceiling on how many may be active inside one another. -/
def call (rules : Rules N R) (source : String) :
    (ceiling : Nat) → (n : N) → Cursor → Outcome (R n)
  | 0, _, _ => .interrupted .tooDeep
  | ceiling + 1, n, c => (rules n).eval (rules.call source ceiling) source c

/-- Runs a parser whose nonterminals stand for the given rules. -/
def run (rules : Rules N R) (ceiling : Nat) (source : String) (p : Parser N R α) (c : Cursor) :
    Outcome α :=
  p.eval (rules.call source ceiling) source c

end Rules

end PieSyntax
