import Std.Data.ExtTreeSet
import PieSyntax.Text.Basic

/-!
# What a failed parse was waiting for

A failure carries one of three payloads: a placeholder that says nothing, the literals and
productions that would have let the parse continue, or the news that the input ended too early or
too late.  `merge` combines the payloads of failures at one place.

## Main results

* `merge_assoc`, `merge_comm`, `merge_self`, `generic_merge` — payloads form a join semilattice
  whose least element is the placeholder, so the order in which alternatives fail is not seen.
-/

namespace PieSyntax

/-- The payload of a failure. -/
inductive Expectation where
  /-- Says nothing; it stands where some other failure explains the matter. -/
  | generic
  /-- One of these literals, each a character as a rule, or one of these productions, would have
  been accepted. -/
  | expected (literals descriptions : Std.ExtTreeSet String)
  /-- More input was needed, or input remained where none should. -/
  | endOfInput

namespace Expectation

/-- One literal was needed. -/
def ofLiteral (s : String) : Expectation := .expected {s} ∅

/-- One character was needed. -/
def ofChar (c : Char) : Expectation := .ofLiteral (String.singleton c)

/-- One production was needed. -/
def ofDescription (d : String) : Expectation := .expected ∅ {d}

/-- Combines two payloads: the placeholder gives way to anything, the end of input gives way to
what was expected, and expectations are united. -/
def merge : Expectation → Expectation → Expectation
  | .generic, e => e
  | e, .generic => e
  | .endOfInput, e => e
  | e, .endOfInput => e
  | .expected l₁ d₁, .expected l₂ d₂ => .expected (l₁ ∪ l₂) (d₁ ∪ d₂)

/-! ## Laws of merging -/

@[simp] theorem generic_merge (e : Expectation) : merge .generic e = e := by
  cases e <;> rfl

@[simp] theorem merge_generic (e : Expectation) : merge e .generic = e := by
  cases e <;> rfl

private theorem union_comm_of_set {α : Type} [Ord α] [Std.TransOrd α] [Std.LawfulEqOrd α]
    (s t : Std.ExtTreeSet α) : s ∪ t = t ∪ s := by
  ext; simp [or_comm]

private theorem union_assoc_of_set {α : Type} [Ord α] [Std.TransOrd α] [Std.LawfulEqOrd α]
    (s t u : Std.ExtTreeSet α) : s ∪ t ∪ u = s ∪ (t ∪ u) := by
  ext; simp [or_assoc]

private theorem union_self_of_set {α : Type} [Ord α] [Std.TransOrd α] [Std.LawfulEqOrd α]
    (s : Std.ExtTreeSet α) : s ∪ s = s := by
  ext; simp

theorem merge_comm (e₁ e₂ : Expectation) : merge e₁ e₂ = merge e₂ e₁ := by
  cases e₁ <;> cases e₂ <;> simp [merge, union_comm_of_set]

theorem merge_assoc (e₁ e₂ e₃ : Expectation) :
    merge (merge e₁ e₂) e₃ = merge e₁ (merge e₂ e₃) := by
  cases e₁ <;> cases e₂ <;> cases e₃ <;> simp [merge, union_assoc_of_set]

theorem merge_self (e : Expectation) : merge e e = e := by
  cases e <;> simp [merge, union_self_of_set]

/-! ## Writing -/

/-- The expected items in the order of a message: the literals in quotes, then the descriptions,
each group in ascending order. -/
def items (literals descriptions : Std.ExtTreeSet String) : List String :=
  literals.toList.map quoted ++ descriptions.toList

/-- The message for a payload.  A payload that names nothing is a bare `parse error`. -/
def describe : Expectation → String
  | .generic => "parse error"
  | .endOfInput => "unexpected end of input"
  | .expected literals descriptions =>
    match items literals descriptions with
    | [] => "parse error"
    | all => "expected one of: " ++ ", ".intercalate all

end Expectation

end PieSyntax
