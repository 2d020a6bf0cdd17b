import PieSyntax.Parsing.Eval

/-!
# Extending a rule system

A rule system can be given further nonterminals, with rules that may call the old ones as well as
each other.  A parser of the old system is a parser of the new one, and runs there as before.

## Main results

* `run_extend` — an extended parser has the outcome that it had before.
-/

namespace PieSyntax

variable {N M : Type} {R : N → Type} {S : M → Type} {α : Type}

/-- The results of the nonterminals of an extended system. -/
abbrev SumResult (R : N → Type) (S : M → Type) : N ⊕ M → Type := Sum.elim R S

/-- A parser as a parser of an extended system. -/
def Parser.extend {α : Type} : Parser N R α → Parser (N ⊕ M) (SumResult R S) α
  | .pure a => .pure a
  | .fail e => .fail e
  | .anyChar => .anyChar
  | .char c => .char c
  | .satisfy description test => .satisfy description test
  | .text s => .text s
  | .spanning test => .spanning test
  | .eof => .eof
  | .refine p judge => .refine p.extend judge
  | .bind p next => .bind p.extend fun a => (next a).extend
  | .alternatives first rest => .alternatives first.extend fun i => (rest i).extend
  | .many p => .many p.extend
  | .manyTill item stop => .manyTill item.extend stop.extend
  | .located p => .located p.extend
  | .named name p => .named name p.extend
  | .call n => .call (Sum.inl n)

/-- The rules of an extended system: the old ones, and those of the new nonterminals. -/
def Rules.extend (rules : Rules N R) (more : (m : M) → Parser (N ⊕ M) (SumResult R S) (S m)) :
    Rules (N ⊕ M) (SumResult R S)
  | .inl n => (rules n).extend
  | .inr m => more m

@[simp] theorem Parser.name_extend (p : Parser N R α) :
    (p.extend : Parser (N ⊕ M) (SumResult R S) α).name = p.name := by
  induction p <;> simp_all [Parser.extend, Parser.name]

theorem Parser.eval_extend {call : (n : N) → Cursor → Outcome (R n)}
    {call' : (n : N ⊕ M) → Cursor → Outcome (SumResult R S n)}
    (h : ∀ n c, call' (.inl n) c = call n c) (source : String) (p : Parser N R α) :
    (p.extend : Parser (N ⊕ M) (SumResult R S) α).eval call' source = p.eval call source := by
  induction p <;> funext c <;> simp_all [Parser.extend, Parser.eval, Parser.label]

theorem Rules.call_extend (rules : Rules N R)
    (more : (m : M) → Parser (N ⊕ M) (SumResult R S) (S m)) (source : String) (ceiling : Nat)
    (n : N) (c : Cursor) :
    (rules.extend more).call source ceiling (.inl n) c = rules.call source ceiling n c := by
  induction ceiling generalizing n c with
  | zero => rfl
  | succ ceiling ih =>
    exact congrFun (Parser.eval_extend (fun n c => ih n c) source (rules n)) c

/-- Extending the rules does not change what a parser of the old system does. -/
theorem Rules.run_extend (rules : Rules N R)
    (more : (m : M) → Parser (N ⊕ M) (SumResult R S) (S m)) (ceiling : Nat) (source : String)
    (p : Parser N R α) (c : Cursor) :
    (rules.extend more).run ceiling source p.extend c = rules.run ceiling source p c :=
  congrFun (Parser.eval_extend (rules.call_extend more source ceiling) source p) c

end PieSyntax
