import PieSyntax.Text.Basic

/-!
# Keywords

Every reserved word belongs to one of three positions: it stands alone as an expression, it heads
a parenthesized expression, or it heads a top-level form.  A word with a Greek or arrow spelling
has an entry for each spelling.

## Main results

* `Form.all_complete`, `Constant.all_complete` — the lists used for the tables leave nothing out.
-/

namespace PieSyntax

/-! ## Words that stand alone -/

/-- The expressions that are a single keyword. -/
inductive Constant where
  | universe
  | nat
  | atom
  | trivial
  | sole
  | zero
  | nil
  | vecnil
  | absurd
  | todo
  deriving DecidableEq, Repr

namespace Constant

/-- The word that is read. -/
def keyword : Constant → String
  | .universe => "U"
  | .nat => "Nat"
  | .atom => "Atom"
  | .trivial => "Trivial"
  | .sole => "sole"
  | .zero => "zero"
  | .nil => "nil"
  | .vecnil => "vecnil"
  | .absurd => "Absurd"
  | .todo => "TODO"

/-- The kind of node that it makes. -/
def kind : Constant → String
  | .universe => "Universe"
  | .nat => "Nat"
  | .atom => "Atom"
  | .trivial => "Trivial"
  | .sole => "Sole"
  | .zero => "Zero"
  | .nil => "ListNil"
  | .vecnil => "VecNil"
  | .absurd => "Absurd"
  | .todo => "Todo"

/-- Every constant. -/
def all : List Constant :=
  [.universe, .nat, .atom, .trivial, .sole, .zero, .nil, .vecnil, .absurd, .todo]

theorem all_complete (c : Constant) : c ∈ all := by
  cases c <;> decide

end Constant

/-! ## Forms with a fixed number of arguments -/

/-- The parenthesized forms that take a fixed number of expressions. -/
inductive Form where
  | add1
  | whichNat
  | iterNat
  | recNat
  | indNat
  | the
  | pair
  | cons
  | car
  | cdr
  | equal
  | same
  | replace
  | trans
  | cong
  | symm
  | indEqual
  | list
  | listCons
  | recList
  | indList
  | vec
  | vecCons
  | head
  | tail
  | indVec
  | either
  | left
  | right
  | indEither
  | indAbsurd
  deriving DecidableEq, Repr

/-- How a form is read and shown: its keyword, the kind of its node, and the names of its
arguments in order. -/
structure Signature where
  keyword : String
  kind : String
  fields : List String

namespace Form

/-- The signature of each form. -/
def signature : Form → Signature
  | .add1 => ⟨"add1", "Add1", ["arg"]⟩
  | .whichNat => ⟨"which-Nat", "WhichNat", ["target", "base", "step"]⟩
  | .iterNat => ⟨"iter-Nat", "IterNat", ["target", "base", "step"]⟩
  | .recNat => ⟨"rec-Nat", "RecNat", ["target", "base", "step"]⟩
  | .indNat => ⟨"ind-Nat", "IndNat", ["target", "motive", "base", "step"]⟩
  | .the => ⟨"the", "The", ["type", "term"]⟩
  | .pair => ⟨"Pair", "Pair", ["car_type", "cdr_type"]⟩
  | .cons => ⟨"cons", "Cons", ["car", "cdr"]⟩
  | .car => ⟨"car", "Car", ["pair"]⟩
  | .cdr => ⟨"cdr", "Cdr", ["pair"]⟩
  | .equal => ⟨"=", "Eq", ["type", "from_", "to"]⟩
  | .same => ⟨"same", "Same", ["value"]⟩
  | .replace => ⟨"replace", "Replace", ["target", "motive", "base"]⟩
  | .trans => ⟨"trans", "Trans", ["left", "right"]⟩
  | .cong => ⟨"cong", "Cong", ["target", "fun"]⟩
  | .symm => ⟨"symm", "Symm", ["target"]⟩
  | .indEqual => ⟨"ind-=", "IndEq", ["target", "motive", "base"]⟩
  | .list => ⟨"List", "List", ["element_type"]⟩
  | .listCons => ⟨"::", "ListCons", ["head", "tail"]⟩
  | .recList => ⟨"rec-List", "RecList", ["target", "base", "step"]⟩
  | .indList => ⟨"ind-List", "IndList", ["target", "motive", "base", "step"]⟩
  | .vec => ⟨"Vec", "Vec", ["element_type", "length"]⟩
  | .vecCons => ⟨"vec::", "VecCons", ["head", "tail"]⟩
  | .head => ⟨"head", "VecHead", ["vec"]⟩
  | .tail => ⟨"tail", "VecTail", ["vec"]⟩
  | .indVec => ⟨"ind-Vec", "IndVec", ["length", "target", "motive", "base", "step"]⟩
  | .either => ⟨"Either", "Either", ["left_type", "right_type"]⟩
  | .left => ⟨"left", "EitherLeft", ["value"]⟩
  | .right => ⟨"right", "EitherRight", ["value"]⟩
  | .indEither => ⟨"ind-Either", "IndEither", ["target", "motive", "on_left", "on_right"]⟩
  | .indAbsurd => ⟨"ind-Absurd", "IndAbsurd", ["target", "motive"]⟩

/-- The word that heads the form. -/
def keyword (f : Form) : String := f.signature.keyword

/-- The kind of node that the form makes. -/
def kind (f : Form) : String := f.signature.kind

/-- The names of the arguments, in order. -/
def fields (f : Form) : List String := f.signature.fields

/-- The number of arguments. -/
def arity (f : Form) : Nat := f.fields.length

/-- Every form. -/
def all : List Form :=
  [.add1, .whichNat, .iterNat, .recNat, .indNat, .the, .pair, .cons, .car, .cdr, .equal, .same,
    .replace, .trans, .cong, .symm, .indEqual, .list, .listCons, .recList, .indList, .vec,
    .vecCons, .head, .tail, .indVec, .either, .left, .right, .indEither, .indAbsurd]

theorem all_complete (f : Form) : f ∈ all := by
  cases f <;> decide

theorem one_le_arity (f : Form) : 1 ≤ f.arity := by
  cases f <;> decide

end Form

/-! ## Heads of parenthesized expressions -/

/-- The two dependent types that bind names. -/
inductive Quantifier where
  | pi
  | sigma
  deriving DecidableEq, Repr

/-- The kind of node that a quantifier makes. -/
def Quantifier.kind : Quantifier → String
  | .pi => "Pi"
  | .sigma => "Sigma"

/-- What a keyword after an opening parenthesis announces. -/
inductive Head where
  | form (f : Form)
  | lambda
  | quantifier (q : Quantifier)
  | arrow
  deriving DecidableEq, Repr

namespace Head

/-- The spellings of a head. -/
def keywords : Head → List String
  | .form f => [f.keyword]
  | .lambda => ["lambda", "λ"]
  | .quantifier .pi => ["Pi", "Π"]
  | .quantifier .sigma => ["Sigma", "Σ"]
  | .arrow => ["->", "→"]

/-- The kind of node that a head makes. -/
def kind : Head → String
  | .form f => f.kind
  | .lambda => "Lambda"
  | .quantifier q => q.kind
  | .arrow => "Arrow"

/-- Every head. -/
def all : List Head :=
  [.lambda, .quantifier .pi, .quantifier .sigma, .arrow] ++ Form.all.map .form

theorem all_complete (h : Head) : h ∈ all := by
  cases h with
  | form f => exact List.mem_append_right _ (List.mem_map_of_mem (Form.all_complete f))
  | quantifier q => cases q <;> simp [all]
  | lambda => simp [all]
  | arrow => simp [all]

end Head

/-! ## Heads of top-level forms -/

/-- The keywords of top-level forms. -/
inductive Command where
  | claim
  | define
  | checkSame
  deriving DecidableEq, Repr

namespace Command

/-- The word that heads the form. -/
def keyword : Command → String
  | .claim => "claim"
  | .define => "define"
  | .checkSame => "check-same"

/-- The kind of node that the form makes. -/
def kind : Command → String
  | .claim => "Claim"
  | .define => "Define"
  | .checkSame => "CheckSame"

/-- Every top-level keyword. -/
def all : List Command := [.claim, .define, .checkSame]

theorem all_complete (c : Command) : c ∈ all := by
  cases c <;> decide

end Command

/-! ## Tables -/

/-- Words that stand alone, with the constants that they denote. -/
def constantTable : List (Text × Constant) :=
  Constant.all.map fun c => (c.keyword.toList, c)

/-- Words that head parenthesized expressions, with what they announce. -/
def headTable : List (Text × Head) :=
  Head.all.flatMap fun h => h.keywords.map fun k => (k.toList, h)

/-- Words that head top-level forms. -/
def commandTable : List (Text × Command) :=
  Command.all.map fun c => (c.keyword.toList, c)

/-- The words that cannot be used as names. -/
def reserved : List Text :=
  constantTable.map (·.1) ++ headTable.map (·.1) ++ commandTable.map (·.1)

end PieSyntax
