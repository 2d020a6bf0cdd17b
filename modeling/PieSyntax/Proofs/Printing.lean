import Mathlib.Algebra.Group.Nat.Defs
import Mathlib.Data.List.Induction
import PieSyntax.Proofs.Spelling

/-!
# Printing trees

`spell` chooses one spelling for each tree: the first spelling of every keyword, and numerals without
leading zeros.

## Main results

* `spelledBy_spell`, `topLevel_spelledBy_spell` — the chosen spelling is one, unless a numeral is too
  long to be read again.
* `short_of_elaborate` — a numeral that was read is not too long.
-/

namespace PieSyntax

/-! ## The chosen spelling -/

/-- The first spelling of a keyword. -/
def Head.spell (h : Head) : SExpr Unit := .word () (h.keywords.headD "").toList

mutual

/-- The chosen spelling of a node. -/
def Node.spell : Node → SExpr Unit
  | .var name => .word () name
  | .tick name => .quoted () name
  | .natLit value => .numeral () (Nat.toDigits 10 value)
  | .constant c => .word () c.keyword.toList
  | .form f args => .list () ((Head.form f).spell :: args.spell)
  | .lambda bs body =>
      .list () [Head.lambda.spell, .list () (bs.map fun b => .word () b.name), spellExpr body]
  | .quantified q bs body =>
      .list () [(Head.quantifier q).spell, .list () (spellTypedBinders bs), spellExpr body]
  | .arrow arg rest => .list () (Head.arrow.spell :: spellExpr arg :: spellExprs rest)
  | .app head args => .list () (spellExpr head :: spellExprs args)

/-- The chosen spelling of an expression. -/
def spellExpr : Located Node → SExpr Unit
  | ⟨_, node⟩ => node.spell

/-- The chosen spellings of expressions. -/
def spellExprs : List (Located Node) → List (SExpr Unit)
  | [] => []
  | e :: es => spellExpr e :: spellExprs es

/-- The chosen spellings of arguments. -/
def Arguments.spell {n : Nat} : Arguments n → List (SExpr Unit)
  | .nil => []
  | .cons first rest => spellExpr first :: rest.spell

/-- The chosen spelling of a name and its type. -/
def TypedBinder.spell : TypedBinder → SExpr Unit
  | .mk _ name type => .list () [.word () name, spellExpr type]

/-- The chosen spellings of names and their types. -/
def spellTypedBinders : List TypedBinder → List (SExpr Unit)
  | [] => []
  | b :: bs => b.spell :: spellTypedBinders bs

end

/-- The chosen spelling of a statement. -/
def Statement.spell : Statement → SExpr Unit
  | .claim name type =>
      .list () [.word () Command.claim.keyword.toList, .word () name.value, spellExpr type]
  | .define name value =>
      .list () [.word () Command.define.keyword.toList, .word () name.value, spellExpr value]
  | .checkSame type left right =>
      .list () [.word () Command.checkSame.keyword.toList, spellExpr type, spellExpr left,
        spellExpr right]
  | .expr e => spellExpr e

/-- The chosen spelling of a top-level form. -/
def TopLevel.spell (t : TopLevel) : SExpr Unit := t.value.spell

theorem Head.spelledBy_spell (h : Head) : h.SpelledBy h.spell := by
  have hmem : ∀ h ∈ Head.all, h.keywords.headD "" ∈ h.keywords := by decide
  exact ⟨_, hmem h (Head.all_complete h), rfl⟩

/-- A numeral in the node is short enough to be read. -/
def Node.Short : Node → Prop
  | .natLit value => (Nat.toDigits 10 value).length ≤ maxDigits
  | _ => True

/-- All numerals in the list are short enough to be read. -/
def AllShort (es : List Expr) : Prop := ∀ e ∈ es, e.value.Short

theorem AllShort.left {es es' : List Expr} (h : AllShort (es ++ es')) : AllShort es :=
  fun e he => h e (List.mem_append_left _ he)

theorem AllShort.right {es es' : List Expr} (h : AllShort (es ++ es')) : AllShort es' :=
  fun e he => h e (List.mem_append_right _ he)

mutual

theorem spelledBy_spell (e : Located Node) (h : AllShort (subexpressions e)) :
    ExprSpelledBy e (spellExpr e) := by
  match e with
  | ⟨loc, node⟩ =>
      rw [subexpressions] at h
      exact node_spelledBy_spell node (h ⟨loc, node⟩ (by simp))
        fun e he => h e (List.mem_cons_of_mem _ he)

theorem node_spelledBy_spell (node : Node) (hself : node.Short)
    (h : AllShort node.subexpressions) : node.SpelledBy node.spell := by
  match node with
  | .var name => rfl
  | .tick name => rfl
  | .natLit value => exact ⟨0, rfl, hself⟩
  | .constant c => rfl
  | .form f args =>
      exact ⟨_, _, rfl, Head.spelledBy_spell _, arguments_spelledBy_spell args h⟩
  | .lambda bs body =>
      exact ⟨_, _, rfl, Head.spelledBy_spell _, spelledBy_spell body h⟩
  | .quantified q bs body =>
      rw [Node.subexpressions] at h
      exact ⟨_, _, _, rfl, Head.spelledBy_spell _, typedBinders_spelledBy_spell bs h.left,
        spelledBy_spell body h.right⟩
  | .arrow arg rest =>
      rw [Node.subexpressions] at h
      exact ⟨_, _, _, rfl, Head.spelledBy_spell _, spelledBy_spell arg h.left,
        all_spelledBy_spell rest h.right⟩
  | .app head args =>
      rw [Node.subexpressions] at h
      exact ⟨_, _, rfl, spelledBy_spell head h.left, all_spelledBy_spell args h.right⟩

theorem all_spelledBy_spell (es : List (Located Node)) (h : AllShort (allSubexpressions es)) :
    ExprsSpelledBy es (spellExprs es) := by
  match es with
  | [] => rfl
  | e :: es =>
      rw [allSubexpressions] at h
      exact ⟨_, _, rfl, spelledBy_spell e h.left, all_spelledBy_spell es h.right⟩

theorem arguments_spelledBy_spell {n : Nat} (args : Arguments n)
    (h : AllShort args.subexpressions) : args.SpelledBy args.spell := by
  match args with
  | .nil => rfl
  | .cons first rest =>
      rw [Arguments.subexpressions] at h
      exact ⟨_, _, rfl, spelledBy_spell first h.left, arguments_spelledBy_spell rest h.right⟩

theorem typedBinder_spelledBy_spell (b : TypedBinder) (h : AllShort b.subexpressions) :
    b.SpelledBy b.spell := by
  match b with
  | .mk loc name type => exact ⟨_, rfl, spelledBy_spell type h⟩

theorem typedBinders_spelledBy_spell (bs : List TypedBinder)
    (h : AllShort (typedBindersSubexpressions bs)) :
    TypedBindersSpelledBy bs (spellTypedBinders bs) := by
  match bs with
  | [] => rfl
  | b :: bs =>
      rw [typedBindersSubexpressions] at h
      exact ⟨_, _, rfl, typedBinder_spelledBy_spell b h.left,
        typedBinders_spelledBy_spell bs h.right⟩

end

theorem topLevel_spelledBy_spell {t : TopLevel} (h : AllShort t.subexpressions) :
    t.SpelledBy t.spell := by
  obtain ⟨loc, statement⟩ := t
  cases statement with
  | claim name type => exact ⟨_, rfl, spelledBy_spell type h⟩
  | define name value => exact ⟨_, rfl, spelledBy_spell value h⟩
  | checkSame type left right =>
      have h : AllShort (subexpressions type ++ (subexpressions left ++ subexpressions right)) := h
      exact ⟨_, _, _, rfl, spelledBy_spell type h.left, spelledBy_spell left h.right.left,
        spelledBy_spell right h.right.right⟩
  | expr e => exact spelledBy_spell e h

/-! ## Numerals that were read -/

theorem numeralValue_lt {run : Text} (h : ∀ ch ∈ run, isDigit ch = true) :
    numeralValue run < 10 ^ run.length := by
  induction run using List.reverseRecOn with
  | nil => decide
  | append_singleton run ch ih =>
      have hlt := ih fun x hx => h x (List.mem_append_left _ hx)
      have hch := h ch (by simp)
      have hdigit : digitValue ch ≤ 9 := by
        have hrange : 48 ≤ ch.toNat ∧ ch.toNat ≤ 57 := by
          simpa [isDigit, Char.isDigit, UInt32.le_iff_toNat_le] using hch
        have hzero : '0'.toNat = 48 := by decide
        rw [digitValue, hzero]
        omega
      rw [numeralValue_concat, List.length_append, List.length_singleton, Nat.pow_succ]
      omega

/-- A numeral that was read can be written again. -/
theorem short_of_elaborate {L : Type} {place : L → Location} {x : SExpr L} {e : Expr}
    (h : elaborate place x = some e) (hx : x.Lexical) : e.value.Short := by
  cases x with
  | word label name =>
      obtain ⟨node, hnode, rfl⟩ := elaborate_word_eq_some h
      rcases elaborateWord_eq_some hnode with ⟨c, -, rfl⟩ | ⟨-, rfl⟩ <;> trivial
  | quoted label name =>
      cases h
      trivial
  | numeral label run =>
      obtain ⟨hne, hall⟩ : run ≠ [] ∧ ∀ ch ∈ run, isDigit ch = true :=
        hx _ (SExpr.mem_within_self _)
      obtain ⟨value, hvalue, rfl⟩ := elaborate_numeral_eq_some h
      obtain ⟨hshort, rfl⟩ := readNumeral_eq_ok_iff.mp hvalue
      have hpos := List.length_pos_iff.mpr hne
      have hlen := (Nat.length_toDigits_le_iff (by omega) hpos).mpr (numeralValue_lt hall)
      exact hlen.trans hshort
  | list label items =>
      rw [elaborate] at h
      obtain ⟨node, hnode, rfl⟩ := Option.map_eq_some_iff.mp h
      obtain ⟨y, ys, rfl, hmeaning⟩ := elaborateList_eq_some hnode
      cases hmeaning <;> trivial

end PieSyntax
