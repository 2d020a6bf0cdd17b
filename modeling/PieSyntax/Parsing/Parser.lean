import PieSyntax.Parsing.Outcome

/-!
# Parsers as data

A parser is a term: it says what to read, and `Parser.eval` says what reading does.  Keeping the
term lets statements range over all parsers, by induction on how they are built.

Recursion goes through nonterminals.  A parser may call any nonterminal `n : N`, whose results
have type `R n`; a rule system supplies the parser that stands behind each.

Every parser has a label, which appears in messages about stalled repetitions.  A parser built
from one other keeps its label; a choice joins the labels of its alternatives.
-/

namespace PieSyntax

/-- What to make of a value that was read: keep it in some form, reject it where it started, or
give up altogether. -/
inductive Verdict (α : Type) where
  | accept (value : α)
  | reject (e : Expectation)
  | interrupt (why : Interruption)

/-- Parsers with results of a given type, over the nonterminals `N` with results `R`. -/
inductive Parser (N : Type) (R : N → Type) : Type → Type 1 where
  /-- Reads nothing and returns a value. -/
  | pure {α : Type} (a : α) : Parser N R α
  /-- Fails where it stands. -/
  | fail {α : Type} (e : Expectation) : Parser N R α
  /-- Reads any one character. -/
  | anyChar : Parser N R Char
  /-- Reads the given character. -/
  | char (c : Char) : Parser N R Char
  /-- Reads a character of a class; the description names the class. -/
  | satisfy (description : String) (test : Char → Bool) : Parser N R Char
  /-- Reads the given characters in order. -/
  | text (s : Text) : Parser N R Text
  /-- Reads the longest run of characters of a class, possibly none. -/
  | spanning (test : Char → Bool) : Parser N R Text
  /-- Succeeds at the end of the input only. -/
  | eof : Parser N R Unit
  /-- Judges the value of a parser. -/
  | refine {α β : Type} (p : Parser N R α) (judge : α → Verdict β) : Parser N R β
  /-- Goes on with a parser that depends on the value of the first. -/
  | bind {α β : Type} (p : Parser N R α) (next : α → Parser N R β) : Parser N R β
  /-- Tries parsers in order where the first one started, until one does not fail. -/
  | alternatives {α : Type} {n : Nat} (first : Parser N R α) (rest : Fin n → Parser N R α) :
    Parser N R α
  /-- Repeats a parser until it fails; that last failure is dropped. -/
  | many {α : Type} (p : Parser N R α) : Parser N R (List α)
  /-- Repeats `item` until `stop` succeeds. -/
  | manyTill {α β : Type} (item : Parser N R α) (stop : Parser N R β) : Parser N R (List α)
  /-- Adds the place that a value was read from. -/
  | located {α : Type} (p : Parser N R α) : Parser N R (Located α)
  /-- Gives a parser another name. -/
  | named {α : Type} (name : String) (p : Parser N R α) : Parser N R α
  /-- Stands for the parser of a nonterminal. -/
  | call (n : N) : Parser N R (R n)

namespace Parser

variable {N : Type} {R : N → Type} {α β : Type}

/-! ## Names -/

/-- A missing name is shown as `run`. -/
def shownName (name : String) : String := if name.isEmpty then "run" else name

/-- The name of a parser, read off how it is built. -/
def name {α : Type} : Parser N R α → String
  | .pure _ => "pure"
  | .fail _ => "fail"
  | .anyChar => "char"
  | .char c => quoted (String.singleton c)
  | .satisfy description _ => description
  | .text s => quoted (String.ofList s)
  | .spanning _ => "spanning"
  | .eof => "eof"
  | .refine p _ => p.name
  | .bind p _ => p.name
  | .alternatives first rest =>
    "|".intercalate (shownName first.name :: List.ofFn fun i => shownName (rest i).name)
  | .many p => Repetition.many.word ++ "(" ++ p.name ++ ")"
  | .manyTill p _ => Repetition.manyTill.word ++ "(" ++ p.name ++ ")"
  | .located p => p.name
  | .named name _ => name
  | .call _ => "deferred"

/-- The name of a parser as it is shown. -/
def label (p : Parser N R α) : String := shownName p.name

/-- A parser is shown by its label. -/
def toText (p : Parser N R α) : String := "Parser(" ++ p.label ++ ")"

/-! ## Derived parsers -/

/-- Applies a function to the value. -/
def map (f : α → β) (p : Parser N R α) : Parser N R β := p.refine fun a => .accept (f a)

/-- Keeps only values that pass a test; others are rejected where the parser started. -/
def guard (p : Parser N R α) (test : α → Bool) (e : Expectation) : Parser N R α :=
  p.refine fun a => if test a then .accept a else .reject e

/-- Reads a character that makes up all of `s`.  No character does if `s` is not one character
long; `s` is what was expected all the same. -/
def literal (s : String) : Parser N R Char :=
  .named (quoted s) (guard .anyChar (fun c => String.singleton c = s) (.ofLiteral s))

/-- Runs two parsers in order and keeps the second value. -/
def andThen (p : Parser N R α) (q : Parser N R β) : Parser N R β :=
  .named (p.label ++ ">>" ++ q.label) (p.bind fun _ => q)

/-- Runs two parsers in order and keeps the first value. -/
def followedBy (p : Parser N R α) (q : Parser N R β) : Parser N R α :=
  .named (p.label ++ "<<" ++ q.label) (p.bind fun a => q.map fun _ => a)

/-- Tries parsers in order.  With no alternative at all it fails and says nothing. -/
def choice : List (Parser N R α) → Parser N R α
  | [] => .fail .generic
  | p :: ps => .alternatives p ps.get

/-- Tries the second parser where the first one started, if that one fails. -/
def orElse (p q : Parser N R α) : Parser N R α := .alternatives p fun _ : Fin 1 => q

/-- To try two parsers is a choice of two. -/
theorem choice_pair (p q : Parser N R α) : choice [p, q] = p.orElse q :=
  congrArg (alternatives p) (funext fun i => by rw [Fin.fin_one_eq_zero i]; rfl)

/-- Runs parsers in order and collects their values. -/
def sequence : List (Parser N R α) → Parser N R (List α)
  | [] => .pure []
  | p :: ps => p.bind fun a => (sequence ps).map (a :: ·)

/-- Repeats a parser at least once. -/
def many1 (p : Parser N R α) : Parser N R (List α) :=
  .named "<lambda>" (p.bind fun a => p.many.map (a :: ·))

/-- Names a production, so that failing at its start reports the name. -/
def describe (description : String) (p : Parser N R α) : Parser N R α :=
  .named description (p.orElse (.fail (.ofDescription description)))

end Parser

end PieSyntax
