import PieSyntax.Lexical.Character
import PieSyntax.Parsing.Parser

/-!
# Tokens and trivia

The lexical level needs no pass of its own: a token is a located parser that swallows the trivia
after it.  Trivia are whitespace, line comments and datum comments; a datum comment drops the one
datum that follows its `#;`, and data hold trivia in turn.  So the parsers here take the trivia
parser `skip`, and where needed the datum parser, as arguments; a rule system ties the knot.
-/

namespace PieSyntax

variable {N : Type} {R : N → Type} {α β : Type}

/-! ## Identifiers and digits -/

/-- An initial character and the subsequent ones after it. -/
def normalIdentifier : Parser N R Text :=
  .named "_join" <|
    (Parser.satisfy "identifier-initial character" isInitial).bind fun c =>
      (Parser.satisfy "identifier subsequent character" isSubsequent).many.map (c :: ·)

/-- One of the signs `+`, `-` and `...`, and the subsequent characters after it. -/
def peculiarIdentifier : Parser N R Text :=
  .named "_join" <|
    (Parser.choice [.text "+".toList, .text "-".toList, .text "...".toList]).bind fun s =>
      (Parser.satisfy "identifier subsequent character" isSubsequent).many.map (s ++ ·)

/-- An identifier, as long as it goes. -/
def identifier : Parser N R Text := normalIdentifier.orElse peculiarIdentifier

/-- A run of digits, as long as it goes. -/
def digits : Parser N R Text :=
  (Parser.satisfy "digit" isDigit).many1.describe "natural number literal"

/-! ## Tokens -/

/-- A located `p` that swallows the trivia after it. -/
def lexeme (skip : Parser N R Unit) (p : Parser N R α) : Parser N R (Located α) :=
  p.located.followedBy skip

/-- `p` between parentheses. -/
def parens (skip : Parser N R Unit) (p : Parser N R α) : Parser N R α :=
  ((lexeme skip (.char '(')).andThen p).followedBy (lexeme skip (.char ')'))

/-- `p` between parentheses, located from the opening one through the closing one. -/
def parensLocated (skip : Parser N R Unit) (p : Parser N R α) : Parser N R (Located α) :=
  .named "_wrap" <|
    (lexeme skip (.char '(')).bind fun opening =>
      p.bind fun value =>
        (lexeme skip (.char ')')).refine fun closing =>
          match opening.loc.join closing.loc with
          | .ok loc => .accept ⟨loc, value⟩
          | .error mismatch => .interrupt (.sourceMismatch mismatch)

/-- An identifier token that is a key of the table; its value is the entry. -/
def keywordTable (skip : Parser N R Unit) (table : List (Text × β)) : Parser N R (Located β) :=
  (lexeme skip identifier).refine fun token =>
    match table.lookup token.value with
    | some entry => .accept ⟨token.loc, entry⟩
    | none => .reject .generic

/-- The identifier token `k`. -/
def keyword (skip : Parser N R Unit) (k : Text) : Parser N R (Located Text) :=
  keywordTable skip [(k, k)]

/-- A numeral token. -/
def natural (skip : Parser N R Unit) : Parser N R (Located Nat) :=
  (lexeme skip digits).refine fun token =>
    match readNumeral token.value with
    | .ok value => .accept ⟨token.loc, value⟩
    | .error tooLong => .interrupt (.numeralTooLong tooLong)

/-! ## Trivia -/

/-- Drops the value of a parser. -/
def ignored (p : Parser N R α) : Parser N R Unit := p.map fun _ => ()

/-- From a semicolon through the next newline or to the end of the text. -/
def lineComment : Parser N R Unit :=
  (((Parser.char ';').andThen (.spanning (· ≠ '\n'))).andThen
    ((ignored (.char '\n')).orElse .eof)).describe "line comment"

/-- A datum: a parenthesized group of data, an identifier or a run of digits. -/
def datum (skip inner : Parser N R Unit) : Parser N R Unit :=
  ignored (lexeme skip
    (((ignored (parens skip inner.many)).orElse (ignored identifier)).orElse (ignored digits)))

/-- A datum that is commented out. -/
def datumComment (skip inner : Parser N R Unit) : Parser N R Unit :=
  ignored ((lexeme skip (.text "#;".toList)).andThen (datum skip inner))

/-- Whitespace and comments, as far as they go. -/
def spacing (skip inner : Parser N R Unit) : Parser N R Unit :=
  ignored (Parser.choice
    (whitespace.map (fun c => ignored (.char c)) ++ [lineComment, datumComment skip inner])).many

end PieSyntax
