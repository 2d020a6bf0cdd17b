import PieSyntax.Syntax.Grammar

/-!
# Generated programs

A generator makes its choices by draws from a tape of integers.  Each draw takes the next number;
when the tape has run out, draws give zero.  The tape counts all draws, also those past its end,
so that a run can be compared with another by how many choices it made.

Programs for tests are drawn in this way: top-level forms with names that are not reserved,
expressions of bounded depth, and separators that include comments of both kinds.  The parts of a
form are drawn before the separators between them.

Of the grammar the generator knows the first line, the constants and the reserved words.  The other
keywords, how many parts their forms have, and the characters of names it lists for itself, and its
lists are shown to agree with those of the grammar.

## Main results

* `isInitial_of_mem_firstChars`, `isSubsequent_of_mem_laterChars` — the characters of names.
* `lambdaKeywords_eq`, `quantifierKeywords_eq`, `arrowKeywords_eq` — the keywords of heads.
* `formArities_eq` — the forms with a fixed number of parts.
-/

namespace PieSyntax.Sample

/-! ## Scripted draws -/

/-- The numbers still to be drawn, and how many draws have been made. -/
structure Tape where
  rest : List Int
  used : Nat
  deriving DecidableEq, Repr

/-- A value that depends on draws. -/
abbrev Draw (α : Type) := StateM Tape α

namespace Draw

/-- The next number of the tape, or zero. -/
def next : Draw Int := fun tape =>
  match tape.rest with
  | [] => (0, ⟨[], tape.used + 1⟩)
  | t :: rest => (t, ⟨rest, tape.used + 1⟩)

/-- A number below `n`; `n` must be positive. -/
def below (n : Nat) : Draw Nat := do
  let t ← next
  return (t % (n : Int)).toNat

/-- A number between two bounds, both included. -/
def between (low high : Nat) : Draw Nat := do
  let k ← below (high - low + 1)
  return low + k

/-- A number of thousandths below one. -/
def thousandths : Draw Nat := below 1000

/-- One of the given values, or `fallback` when none is given. -/
def oneOf {α : Type} (values : List α) (fallback : α) : Draw α := do
  let i ← below values.length
  return values.getD i fallback

/-- Draws a number of values in order. -/
def times {α : Type} (d : Draw α) : Nat → Draw (List α)
  | 0 => return []
  | n + 1 => do
    let x ← d
    let xs ← times d n
    return x :: xs

end Draw

/-! ## Alphabets and separators -/

/-- The letters of ASCII, the small ones first. -/
def letters : Text := "abcdefghijklmnopqrstuvwxyzABCDEFGHIJKLMNOPQRSTUVWXYZ".toList

/-- The characters that a generated name may start with. -/
def firstChars : Text := letters ++ "!$%&*/:<=>?^_~".toList ++ "αβγ".toList

/-- The characters that a generated name may go on with. -/
def laterChars : Text := letters ++ "0123456789".toList ++ "-?!*<>=/+.".toList

theorem isInitial_of_mem_firstChars : ∀ c ∈ firstChars, isInitial c = true := by
  decide +kernel

theorem isSubsequent_of_mem_laterChars : ∀ c ∈ laterChars, isSubsequent c = true := by
  decide +kernel

/-- What may stand between two parts of a form.  A single space is the likeliest. -/
def separators : List Text :=
  [" ", " ", " ", "\n", "\t", "  ", "\r\n", " ; note\n", " #;(ignored (x 1)) ",
    " #;skip "].map String.toList

/-- What may stand after a top-level form. -/
def lineEndings : List Text := ["\n", "\n\n", " ", "\n;; comment\n"].map String.toList

/-! ## Keywords -/

/-- The constants in the order of their keywords. -/
def sortedConstants : List Constant :=
  Constant.all.mergeSort fun c d => decide (c.keyword ≤ d.keyword)

/-- The keywords of abstractions. -/
def lambdaKeywords : List String := ["lambda", "λ"]

/-- The keywords of dependent types. -/
def quantifierKeywords : List String := ["Pi", "Π", "Sigma", "Σ"]

/-- The keywords of function types. -/
def arrowKeywords : List String := ["->", "→"]

/-- The keywords of the forms with a fixed number of parts, each with that number. -/
def formArities : List (String × Nat) :=
  [("add1", 1), ("which-Nat", 3), ("iter-Nat", 3), ("rec-Nat", 3), ("ind-Nat", 4), ("the", 2),
    ("Pair", 2), ("cons", 2), ("car", 1), ("cdr", 1), ("=", 3), ("same", 1), ("replace", 3),
    ("trans", 2), ("cong", 2), ("symm", 1), ("ind-=", 3), ("List", 1), ("::", 2), ("rec-List", 3),
    ("ind-List", 4), ("Vec", 2), ("vec::", 2), ("head", 1), ("tail", 1), ("ind-Vec", 5),
    ("Either", 2), ("left", 1), ("right", 1), ("ind-Either", 4), ("ind-Absurd", 2)]

/-- The keywords of these forms in order. -/
def sortedForms : List String :=
  (formArities.map Prod.fst).mergeSort fun j k => decide (j ≤ k)

/-- How many parts come after the keyword of such a form. -/
def formArity (keyword : String) : Nat := (formArities.lookup keyword).getD 0

theorem lambdaKeywords_eq : lambdaKeywords = Head.lambda.keywords := rfl

theorem quantifierKeywords_eq :
    quantifierKeywords = (Head.quantifier .pi).keywords ++ (Head.quantifier .sigma).keywords := rfl

theorem arrowKeywords_eq : arrowKeywords = Head.arrow.keywords := rfl

/-- The forms are those of the grammar, and take as many parts as there. -/
theorem formArities_eq : formArities = Form.all.map fun f => (f.keyword, f.arity) := rfl

theorem formArity_keyword (f : Form) : formArity f.keyword = f.arity := by
  cases f <;> rfl

theorem exists_form_of_mem_sortedForms {k : String} (h : k ∈ sortedForms) :
    ∃ f : Form, f.keyword = k := by
  rw [sortedForms, List.mem_mergeSort, formArities_eq, List.map_map] at h
  obtain ⟨f, -, hf⟩ := List.mem_map.mp h
  exact ⟨f, hf⟩

/-! ## Names and layout -/

/-- An identifier of up to nine characters. -/
def word : Draw Text := do
  let first ← Draw.oneOf firstChars 'a'
  let length ← Draw.between 0 8
  let later ← (Draw.oneOf laterChars 'a').times length
  return first :: later

/-- Draws words until one is not reserved.  Past the end of the tape the word is `a`, so `fuel`,
the tape at the first word, outlasts the words. -/
def freeWord : (fuel : List Int) → Draw Text
  | [] => word
  | _ :: fuel => do
    let name ← word
    if reserved.contains name then freeWord fuel else return name

/-- A name that is not reserved. -/
def name : Draw Text := do
  let tape ← get
  freeWord tape.rest

/-- What stands between two parts of a form. -/
def separator : Draw Text := Draw.oneOf separators " ".toList

/-- Parts with a separator before each. -/
def separated : List Text → Draw Text
  | [] => return []
  | part :: parts => do
    let before ← separator
    let rest ← separated parts
    return before ++ part ++ rest

/-- A parenthesized form with the given parts. -/
def parenthesized (head : Text) (parts : List Text) : Draw Text := do
  let body ← separated parts
  return '(' :: head ++ body ++ [')']

/-- Parts between parentheses, with single spaces. -/
def spaced (parts : List Text) : Text := '(' :: [' '].intercalate parts ++ [')']

/-! ## Expressions -/

/-- An expression without parts. -/
def leaf : Draw Text := do
  let k ← Draw.thousandths
  if k < 350 then name
  else if k < 500 then
    let n ← name
    return '\'' :: n
  else if k < 650 then
    let n ← Draw.between 0 5000
    return Nat.toDigits 10 n
  else
    let c ← Draw.oneOf sortedConstants .absurd
    return c.keyword.toList

/-- One of the keywords. -/
def keywordOf (keywords : List String) : Draw Text := do
  let k ← Draw.oneOf keywords ""
  return k.toList

/-- A parenthesized expression whose parts come from `part`. -/
def composite (part : Draw Text) : Draw Text := do
  let k ← Draw.thousandths
  if k < 100 then
    let head ← keywordOf lambdaKeywords
    let count ← Draw.between 1 3
    let names ← name.times count
    let body ← part
    parenthesized head [spaced names, body]
  else if k < 200 then
    let head ← keywordOf quantifierKeywords
    let count ← Draw.between 1 3
    let binders ← Draw.times (do
      let n ← name
      let type ← part
      return spaced [n, type]) count
    let body ← part
    parenthesized head [spaced binders, body]
  else if k < 300 then
    let head ← keywordOf arrowKeywords
    let count ← Draw.between 2 4
    let parts ← part.times count
    parenthesized head parts
  else if k < 400 then
    let head ← part
    let count ← Draw.between 1 3
    let args ← part.times count
    parenthesized head args
  else
    let head ← Draw.oneOf sortedForms "::"
    let args ← part.times (formArity head)
    parenthesized head.toList args

/-- An expression with parts down to the given depth. -/
def expr : (depth : Nat) → Draw Text
  | 0 => leaf
  | depth + 1 => do
    let k ← Draw.thousandths
    if k < 300 then leaf else composite (expr depth)

/-! ## Programs -/

/-- A top-level form. -/
def topLevel : Draw Text := do
  let k ← Draw.thousandths
  if k < 350 then
    let n ← name
    let type ← expr 3
    parenthesized "claim".toList [n, type]
  else if k < 700 then
    let n ← name
    let value ← expr 3
    parenthesized "define".toList [n, value]
  else if k < 850 then
    let parts ← (expr 2).times 3
    parenthesized "check-same".toList parts
  else expr 3

/-- A top-level form and what follows it. -/
def line : Draw Text := do
  let form ← topLevel
  let ending ← Draw.oneOf lineEndings []
  return form ++ ending

/-- A program of up to six forms. -/
def source : Draw Text := do
  let count ← Draw.between 0 6
  let lines ← line.times count
  return Grammar.header ++ '\n' :: lines.flatten

/-- A number of programs. -/
def sources (count : Nat) : Draw (List Text) := source.times count

/-- The name of the program with the given number, padded to six digits. -/
def fileName (i : Nat) : String :=
  let digits := Nat.toDigits 10 i
  "case_" ++ String.ofList (List.replicate (6 - digits.length) '0' ++ digits) ++ ".pie"

/-- A number of programs, each with the name of its file. -/
def files (count : Nat) : Draw (List (String × Text)) := do
  let texts ← sources count
  return texts.zipIdx.map fun (text, i) => (fileName i, text)

end PieSyntax.Sample
