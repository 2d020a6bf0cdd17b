import PieSyntax.Proofs.Tail

/-!
# Tokens

What the parsers of the lexical level read, in the two directions: a success says what comes next in
the text (`eval_…_ok`), and what comes next is read (`Reads.…`).  The trivia parser `skip` is any
parser here.

## Main results

* `eval_lexeme_ok`, `eval_parens_ok`, `eval_parensLocated_ok` — what a token or a bracket has read.
* `Reads.lexeme`, `Reads.parens`, `Reads.parensLocated` — where they read.
-/

namespace PieSyntax

variable {N : Type} {R : N → Type} {call : (n : N) → Cursor → Outcome (R n)} {source : String}
variable {skip : Parser N R Unit} {α β : Type}

theorem join_same_source (a b a' b' : Position) :
    Location.join ⟨source, a, b⟩ ⟨source, a', b'⟩ = .ok ⟨source, a, b'⟩ :=
  Location.join_of_source_eq rfl

/-! ## What a success says -/

theorem eval_identifier_ok {c d : Cursor} {name : Text}
    (h : (identifier : Parser N R Text).eval call source c = .ok name d) :
    wordPrefix c.rest = some name ∧ d = c.skip name := by
  cases hw : wordPrefix c.rest with
  | none =>
      obtain ⟨f, hf⟩ := eval_identifier_of_none call source hw
      rw [hf] at h
      cases h
  | some name' =>
      rw [eval_identifier_of_some call source hw] at h
      cases h
      exact ⟨rfl, rfl⟩

theorem eval_digits_ok {c d : Cursor} {run : Text}
    (h : (digits : Parser N R Text).eval call source c = .ok run d) :
    digitPrefix c.rest = some run ∧ d = c.skip run := by
  cases hw : digitPrefix c.rest with
  | none =>
      obtain ⟨f, hf⟩ := eval_digits_of_none call source hw
      rw [hf] at h
      cases h
  | some run' =>
      rw [eval_digits_of_some call source hw] at h
      cases h
      exact ⟨rfl, rfl⟩

theorem eval_lexeme_ok {p : Parser N R α} {c d : Cursor} {x : Located α}
    (h : (lexeme skip p).eval call source c = .ok x d) :
    ∃ m, p.eval call source c = .ok x.value m ∧ x.loc = ⟨source, c.pos, m.pos⟩ ∧
      skip.eval call source m = .ok () d := by
  obtain ⟨u, m, hp, hskip⟩ := Parser.eval_followedBy_ok h
  obtain ⟨hvalue, hloc⟩ := Parser.eval_located_ok hp
  exact ⟨m, hvalue, hloc, hskip⟩

theorem eval_lexeme_char_ok {ch : Char} {c d : Cursor} {x : Located Char}
    (h : (lexeme skip (.char ch)).eval call source c = .ok x d) :
    (∃ r, c.rest = ch :: r) ∧ x.loc = ⟨source, c.pos, (c.skip [ch]).pos⟩ ∧
      skip.eval call source (c.skip [ch]) = .ok () d := by
  obtain ⟨m, hchar, hloc, hskip⟩ := eval_lexeme_ok h
  obtain ⟨-, hr, rfl⟩ := eval_char_ok call source hchar
  exact ⟨hr, hloc, hskip⟩

theorem eval_parens_ok {p : Parser N R α} {c e : Cursor} {a : α}
    (h : (parens skip p).eval call source c = .ok a e) :
    ∃ c₁ d, (∃ r, c.rest = '(' :: r) ∧ skip.eval call source (c.skip ['(']) = .ok () c₁ ∧
      p.eval call source c₁ = .ok a d ∧ (∃ r, d.rest = ')' :: r) ∧
        skip.eval call source (d.skip [')']) = .ok () e := by
  obtain ⟨x, d, hbody, hclose⟩ := Parser.eval_followedBy_ok h
  obtain ⟨y, c₁, hopen, hp⟩ := Parser.eval_andThen_ok hbody
  obtain ⟨hr, -, hskip⟩ := eval_lexeme_char_ok hopen
  obtain ⟨hr', -, hskip'⟩ := eval_lexeme_char_ok hclose
  exact ⟨c₁, d, hr, hskip, hp, hr', hskip'⟩

theorem eval_parensLocated_ok {p : Parser N R α} {c e : Cursor} {x : Located α}
    (h : (parensLocated skip p).eval call source c = .ok x e) :
    ∃ c₁ d, (∃ r, c.rest = '(' :: r) ∧ skip.eval call source (c.skip ['(']) = .ok () c₁ ∧
      p.eval call source c₁ = .ok x.value d ∧ (∃ r, d.rest = ')' :: r) ∧
        x.loc = ⟨source, c.pos, (d.skip [')']).pos⟩ ∧
          skip.eval call source (d.skip [')']) = .ok () e := by
  unfold parensLocated at h
  rw [Parser.eval] at h
  obtain ⟨opening, c₁, hopen, hrest⟩ := Parser.eval_bind_ok h
  obtain ⟨a, d, hp, hclose⟩ := Parser.eval_bind_ok hrest
  obtain ⟨closing, hclosing, hjudge⟩ := Parser.eval_refine_ok hclose
  obtain ⟨hr, hloc, hskip⟩ := eval_lexeme_char_ok hopen
  obtain ⟨hr', hloc', hskip'⟩ := eval_lexeme_char_ok hclosing
  rw [hloc, hloc', join_same_source] at hjudge
  cases hjudge
  exact ⟨c₁, d, hr, hskip, hp, hr', rfl, hskip'⟩

theorem eval_lexeme_identifier_ok {c d : Cursor} {x : Located Text}
    (h : (lexeme skip identifier).eval call source c = .ok x d) :
    wordPrefix c.rest = some x.value ∧ x.loc = ⟨source, c.pos, (c.skip x.value).pos⟩ ∧
      skip.eval call source (c.skip x.value) = .ok () d := by
  obtain ⟨m, hword, hloc, hskip⟩ := eval_lexeme_ok h
  obtain ⟨hpre, rfl⟩ := eval_identifier_ok hword
  exact ⟨hpre, hloc, hskip⟩

theorem eval_keywordTable_ok {table : List (Text × β)} {c d : Cursor} {x : Located β}
    (h : (keywordTable skip table).eval call source c = .ok x d) :
    ∃ name, wordPrefix c.rest = some name ∧ table.lookup name = some x.value ∧
      x.loc = ⟨source, c.pos, (c.skip name).pos⟩ ∧
        skip.eval call source (c.skip name) = .ok () d := by
  obtain ⟨token, htoken, hjudge⟩ := Parser.eval_refine_ok h
  obtain ⟨hpre, hloc, hskip⟩ := eval_lexeme_identifier_ok htoken
  cases hlookup : table.lookup token.value with
  | none => rw [hlookup] at hjudge; cases hjudge
  | some entry =>
      rw [hlookup] at hjudge
      cases hjudge
      exact ⟨token.value, hpre, hlookup, hloc, hskip⟩

theorem eval_natural_ok {c d : Cursor} {x : Located Nat}
    (h : (natural skip).eval call source c = .ok x d) :
    ∃ run, digitPrefix c.rest = some run ∧ readNumeral run = .ok x.value ∧
      x.loc = ⟨source, c.pos, (c.skip run).pos⟩ ∧
        skip.eval call source (c.skip run) = .ok () d := by
  obtain ⟨token, htoken, hjudge⟩ := Parser.eval_refine_ok h
  obtain ⟨m, hdigits, hloc, hskip⟩ := eval_lexeme_ok htoken
  obtain ⟨hpre, rfl⟩ := eval_digits_ok hdigits
  cases hnumeral : readNumeral token.value with
  | error tooLong => rw [hnumeral] at hjudge; cases hjudge
  | ok value =>
      rw [hnumeral] at hjudge
      cases hjudge
      exact ⟨token.value, hpre, hnumeral, hloc, hskip⟩

/-! ## What comes next is read -/

namespace Parser

variable {V : Tails} {p : Parser N R α} {c c₁ d m : Cursor} {a : α}

theorem Reads.lexeme (h : Returns call source V p c a m) :
    Reads call source V skip (lexeme skip p) c ⟨⟨source, c.pos, m.pos⟩, a⟩ m :=
  Reads.self (Returns.located h)

theorem follows_lexeme (h : p.eval call source c = .ok a m) :
    ((PieSyntax.lexeme skip p).eval call source c).Follows ⟨⟨source, c.pos, m.pos⟩, a⟩
      (skip.eval call source m) := by
  unfold PieSyntax.lexeme Parser.followedBy Parser.map
  simp only [Parser.eval, h, Outcome.andThen_ok]
  exact ⟨fun n hn => by rw [hn]; rfl, fun ht => by rw [ht]; rfl⟩

theorem Declines.lexeme (h : Declines call source V p c) :
    Declines call source V (PieSyntax.lexeme skip p) c :=
  Declines.followedBy (Declines.located h)

/-- A bracket: the opening parenthesis and the trivia after it, what is between, and the closing
parenthesis. -/
theorem Reads.parens {r r' : Text} (hopen : c.rest = '(' :: r)
    (hskip : Returns call source V skip (c.skip ['(']) () c₁)
    (h : Returns call source V p c₁ a d) (hclose : d.rest = ')' :: r') :
    Reads call source V skip (parens skip p) c a (d.skip [')']) :=
  Reads.followedBy (Reads.andThen (Reads.close (Reads.lexeme (Returns.char hopen)) hskip) h)
    (Reads.lexeme (Returns.char hclose))

theorem Declines.parens (h : ∀ v, V v → (c.rest ++ v).head? ≠ some '(') :
    Declines call source V (PieSyntax.parens skip p) c :=
  Declines.followedBy (Declines.andThen (Declines.lexeme (Declines.char h)))

theorem Reads.parensLocated {r r' : Text} (hopen : c.rest = '(' :: r)
    (hskip : Returns call source V skip (c.skip ['(']) () c₁)
    (h : Returns call source V p c₁ a d) (hclose : d.rest = ')' :: r') :
    Reads call source V skip (parensLocated skip p) c
      ⟨⟨source, c.pos, (d.skip [')']).pos⟩, a⟩ (d.skip [')']) := by
  refine Reads.named _ (Reads.bind (Reads.close (Reads.lexeme (Returns.char hopen)) hskip) ?_)
  refine Reads.bind h (Reads.refine (Reads.lexeme (Returns.char hclose)) ?_)
  simp only [join_same_source]

theorem Declines.parensLocated (h : ∀ v, V v → (c.rest ++ v).head? ≠ some '(') :
    Declines call source V (PieSyntax.parensLocated skip p) c :=
  Declines.named _ (Declines.bind (Declines.lexeme (Declines.char h)))

/-- A bracket of which the inside fails. -/
theorem Declines.parensLocated_inside {r : Text} (hopen : c.rest = '(' :: r)
    (hskip : Returns call source V skip (c.skip ['(']) () c₁)
    (h : Declines call source V p c₁) : Declines call source V (PieSyntax.parensLocated skip p) c :=
  Declines.named _ (Declines.bind_right
    (Reads.close (Reads.lexeme (Returns.char hopen)) hskip) (Declines.bind h))

theorem Reads.keywordTable {table : List (Text × β)} {name r : Text} {entry : β}
    (hr : c.rest = name ++ r) (h : ∀ v, V v → wordPrefix (c.rest ++ v) = some name)
    (hlookup : table.lookup name = some entry) :
    Reads call source V skip (keywordTable skip table) c
      ⟨⟨source, c.pos, (c.skip name).pos⟩, entry⟩ (c.skip name) :=
  Reads.refine (Reads.lexeme (Returns.identifier hr h)) (by rw [hlookup])

/-- Where no identifier comes next there is no keyword. -/
theorem Declines.keywordTable {table : List (Text × β)}
    (h : ∀ v, V v → wordPrefix (c.rest ++ v) = none) :
    Declines call source V (PieSyntax.keywordTable skip table) c :=
  Declines.refine (Declines.lexeme (Declines.identifier h))

/-- An identifier that is not in the table is read, with the trivia after it, before it is
rejected. -/
theorem Declines.keywordTable_lookup {table : List (Text × β)} {name r : Text}
    (hr : c.rest = name ++ r) (h : ∀ v, V v → wordPrefix (c.rest ++ v) = some name)
    (hskip : Returns call source V skip (c.skip name) () d) (hlookup : table.lookup name = none) :
    Declines call source V (PieSyntax.keywordTable skip table) c :=
  Declines.refine_reject (Reads.close (Reads.lexeme (Returns.identifier hr h)) hskip)
    (e := .generic) (by rw [hlookup])

theorem Reads.natural {run r : Text} {value : Nat} (hr : c.rest = run ++ r)
    (h : ∀ v, V v → digitPrefix (c.rest ++ v) = some run) (hvalue : readNumeral run = .ok value) :
    Reads call source V skip (natural skip) c
      ⟨⟨source, c.pos, (c.skip run).pos⟩, value⟩ (c.skip run) :=
  Reads.refine (Reads.lexeme (Returns.digits hr h)) (by rw [hvalue])

theorem Declines.natural (h : ∀ v, V v → digitPrefix (c.rest ++ v) = none) :
    Declines call source V (PieSyntax.natural skip) c :=
  Declines.refine (Declines.lexeme (Declines.digits h))

end Parser

end PieSyntax
