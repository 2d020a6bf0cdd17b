import PieSyntax.Proofs.Sound

/-!
# Reading single tokens

Where a word, a quoted word, a numeral or a parenthesis comes next, the choice among the expressions
comes to the right alternative: those tried before it look for another first character, or reject
the word they have read because it is reserved.

A tail may come right after the token.  `SExpr.Closed` says that it does not change where the token
ends.

## Main results

* `Grammar.reads_tick`, `Grammar.reads_variable`, `Grammar.reads_constant`, `Grammar.reads_natLit`,
  `Grammar.reads_compound` — one for each alternative of the choice.
* `Grammar.declines_expr` — no expression starts with any other character.
-/

namespace PieSyntax

/-- The text does not change where the S-expression before it ends: a word and a numeral do not go
on in it. -/
def SExpr.EndsBefore {L : Type} : SExpr L → Text → Prop
  | .word _ _, v => Boundary v
  | .quoted _ _, v => Boundary v
  | .numeral _ _, v => ∀ ch ∈ v.head?, isDigit ch = false
  | .list _ _, _ => True

/-- The tails do not change where the S-expression ends. -/
def SExpr.Closed (V : Tails) {L : Type} (x : SExpr L) (m : Cursor) : Prop :=
  m.rest ≠ [] ∨ ∀ v, V v → x.EndsBefore v

namespace Grammar

open PieSyntax.Parser

variable {V : Tails} {G : Cursor → Cursor → Prop} {source : String} {k : Nat} {c d m : Cursor}

/-! ## Single tokens -/

theorem wordPrefix_of_stands {loc : Location} {name : Text}
    (h : (SExpr.word loc name).StandsBy G source c m) (hclosed : (SExpr.word loc name).Closed V m) :
    ∃ r, c.rest = name ++ r ∧ ∀ v, V v → wordPrefix (c.rest ++ v) = some name := by
  obtain ⟨hname, rfl, -⟩ := h
  obtain ⟨r, hr⟩ := exists_of_wordPrefix hname
  refine ⟨r, hr, fun v hv => hr ▸ wordPrefix_append (hr ▸ hname) fun hnil => ?_⟩
  rcases hclosed with hne | hboundary
  · rw [Cursor.rest_skip hr] at hne
    exact absurd hnil hne
  · exact hboundary v hv

theorem digitPrefix_of_stands {loc : Location} {run : Text}
    (h : (SExpr.numeral loc run).StandsBy G source c m)
    (hclosed : (SExpr.numeral loc run).Closed V m) :
    ∃ r, c.rest = run ++ r ∧ ∀ v, V v → digitPrefix (c.rest ++ v) = some run := by
  obtain ⟨hrun, rfl, -⟩ := h
  obtain ⟨r, hr⟩ := exists_of_digitPrefix hrun
  refine ⟨r, hr, fun v hv => hr ▸ digitPrefix_append (hr ▸ hrun) fun hnil => ?_⟩
  rcases hclosed with hne | hend
  · rw [Cursor.rest_skip hr] at hne
    exact absurd hnil hne
  · exact hend v hv

/-- The first character of what comes next, with any tail. -/
theorem head_append {ch : Char} {r : Text} (h : c.rest = ch :: r) :
    ∀ v, V v → ∀ x ∈ (c.rest ++ v).head?, x = ch := by
  intro v _ x hx
  rw [h] at hx
  cases hx
  rfl

theorem declines_varName (h : ∀ v, V v → ∀ ch ∈ (c.rest ++ v).head?, isWordStart ch = false) :
    Declines (rules.call source k) source V varName c :=
  Declines.describe _ (Declines.refine (Declines.lexeme (Declines.identifier fun v hv =>
    wordPrefix_eq_none_of_head (h v hv))))

theorem declines_tick (h : ∀ v, V v → (c.rest ++ v).head? ≠ some '\'') :
    Declines (rules.call source k) source V tick c :=
  Declines.map _ (Declines.lexeme (Declines.andThen (Declines.char h)))

theorem declines_constant
    (h : ∀ v, V v → ∀ ch ∈ (c.rest ++ v).head?, isWordStart ch = false) :
    Declines (rules.call source k) source V constant c :=
  Declines.map _ (Declines.keywordTable fun v hv => wordPrefix_eq_none_of_head (h v hv))

theorem declines_natLit (h : ∀ v, V v → ∀ ch ∈ (c.rest ++ v).head?, isDigit ch = false) :
    Declines (rules.call source k) source V natLit c :=
  Declines.map _ (Declines.natural fun v hv => digitPrefix_eq_none_of_head (h v hv))

/-- No expression starts where the text starts otherwise. -/
theorem declines_expr (h : ∀ v, V v → ∀ ch ∈ (c.rest ++ v).head?, startsItem ch = false) :
    Declines (rules.call source k) source V expr c := by
  have hne : ∀ v, V v → ∀ ch, startsItem ch = true → (c.rest ++ v).head? ≠ some ch := by
    intro v hv ch hch hhead
    rw [h v hv ch hhead] at hch
    cases hch
  have hword : ∀ v, V v → ∀ ch ∈ (c.rest ++ v).head?, isWordStart ch = false := by
    intro v hv ch hch
    have hstart := h v hv ch hch
    simp only [startsItem, Bool.or_eq_false_iff] at hstart
    exact hstart.1.1.1
  have hdigit : ∀ v, V v → ∀ ch ∈ (c.rest ++ v).head?, isDigit ch = false := by
    intro v hv ch hch
    have hstart := h v hv ch hch
    simp only [startsItem, Bool.or_eq_false_iff] at hstart
    exact hstart.1.1.2
  refine Declines.describe _ (Declines.choice fun p hp => ?_)
  simp only [List.mem_cons, List.not_mem_nil, or_false] at hp
  rcases hp with rfl | rfl | rfl | rfl | rfl
  · exact declines_tick fun v hv => hne v hv '\'' (by decide)
  · exact Declines.map _ (declines_varName hword)
  · exact declines_constant hword
  · exact declines_natLit hdigit
  · exact Declines.parensLocated fun v hv => hne v hv '(' (by decide)

/-- An expression is what its alternatives up to some place read. -/
theorem reads_expr_of_foldl {e : Expr} (qs : List (PieParser Expr))
    (hqs : qs <+: [variableName, constant, natLit, compound])
    (h : Reads (rules.call source k) source V skip (qs.foldl .orElse tick) c e m) :
    Reads (rules.call source k) source V skip expr c e m :=
  Reads.describe _ (Reads.choice_of_foldl hqs h)

theorem reads_tick {loc : Location} {name : Text}
    (h : (SExpr.quoted loc name).StandsBy G source c m)
    (hclosed : (SExpr.quoted loc name).Closed V m) :
    Reads (rules.call source k) source V skip expr c ⟨loc, .tick name⟩ m := by
  obtain ⟨r, hr, hname, rfl, rfl⟩ := h
  obtain ⟨r', rfl⟩ := exists_of_wordPrefix hname
  have hrest : c.rest = ('\'' :: name) ++ r' := hr
  have hc₁ := Cursor.rest_skip (u := ['\'']) (r := name ++ r') hr
  have hword : Returns (rules.call source k) source V identifier (c.skip ['\'']) name
      ((c.skip ['\'']).skip name) := by
    refine Returns.identifier hc₁ fun v hv => hc₁ ▸ wordPrefix_append hname fun hnil => ?_
    rcases hclosed with hne | hboundary
    · rw [Cursor.rest_skip hrest] at hne
      exact absurd hnil hne
    · exact hboundary v hv
  rw [Cursor.skip_skip, List.singleton_append] at hword
  have htoken : Reads (rules.call source k) source V skip
      (lexeme skip ((Parser.char '\'').andThen identifier)) c
        ⟨⟨source, c.pos, (c.skip ('\'' :: name)).pos⟩, name⟩ (c.skip ('\'' :: name)) :=
    Reads.lexeme (Reads.andThen (Returns.char hr) hword)
  have htick : Reads (rules.call source k) source V skip tick c
      ⟨⟨source, c.pos, (c.skip ('\'' :: name)).pos⟩, .tick name⟩ (c.skip ('\'' :: name)) :=
    Reads.map (Located.map Node.tick) htoken
  exact reads_expr_of_foldl [] List.nil_prefix htick

theorem reads_varName {loc : Location} {name : Text}
    (h : (SExpr.word loc name).StandsBy G source c m) (hclosed : (SExpr.word loc name).Closed V m)
    (hfree : isFreeName name = true) :
    Reads (rules.call source k) source V skip varName c ⟨loc, name⟩ m := by
  obtain ⟨r, hr, hword⟩ := wordPrefix_of_stands h hclosed
  obtain ⟨-, rfl, rfl⟩ := h
  exact Reads.describe _ (Reads.guard _ (Reads.lexeme (Returns.identifier hr hword)) hfree)

/-- The first character of a word. -/
theorem head_of_stands_word {loc : Location} {name : Text}
    (h : (SExpr.word loc name).StandsBy G source c m) :
    ∃ ch r, c.rest = ch :: r ∧ isWordStart ch = true := by
  obtain ⟨hname, -, -⟩ := h
  obtain ⟨r, hr⟩ := exists_of_wordPrefix hname
  obtain ⟨ch, t, rfl, hch⟩ := (IsWord.of_wordPrefix hname).head
  exact ⟨ch, t ++ r, hr, hch⟩

theorem ne_of_isWordStart {ch x : Char} (h : isWordStart ch = true) (hx : isWordStart x = false) :
    ch ≠ x := by
  rintro rfl
  rw [hx] at h
  cases h

theorem reads_variable {loc : Location} {name : Text}
    (h : (SExpr.word loc name).StandsBy G source c m) (hclosed : (SExpr.word loc name).Closed V m)
    (hfree : isFreeName name = true) :
    Reads (rules.call source k) source V skip expr c ⟨loc, .var name⟩ m := by
  obtain ⟨ch, r, hr, hch⟩ := head_of_stands_word h
  have htick : Declines (rules.call source k) source V tick c := by
    refine declines_tick fun v hv hhead => ?_
    exact ne_of_isWordStart hch (by decide) (head_append hr v hv _ hhead).symm
  have hvariable : Reads (rules.call source k) source V skip variableName c ⟨loc, .var name⟩ m :=
    Reads.map (Located.map Node.var) (reads_varName h hclosed hfree)
  exact reads_expr_of_foldl [variableName] ⟨_, rfl⟩ (Reads.orElse_right htick hvariable)

theorem eval_tick_of_head (h : c.rest.head? ≠ some '\'') :
    ∃ f, tick.eval (rules.call source k) source c = .fail f := by
  obtain ⟨f, hf⟩ := eval_char_of_not_head (rules.call source k) source h
  refine ⟨f, ?_⟩
  show ((((((Parser.char '\'' : PieParser Char).eval (rules.call source k) source c).andThen
    _).andThen _).andThen _).andThen _) = _
  rw [hf]
  rfl

/-- A constant is read as a name first, and rejected, since its word is reserved. -/
theorem reads_constant {loc : Location} {name : Text} {value : Constant}
    (h : (SExpr.word loc name).StandsBy G source c m) (hclosed : (SExpr.word loc name).Closed V m)
    (hlookup : constantTable.lookup name = some value) :
    Reads (rules.call source k) source V skip expr c ⟨loc, .constant value⟩ m := by
  have hreserved : ∀ p ∈ constantTable, isFreeName p.1 = false := by decide
  have hfree : isFreeName name = false := hreserved _ (mem_of_lookup hlookup)
  obtain ⟨ch, r, hr, hch⟩ := head_of_stands_word h
  obtain ⟨r', hr', hword⟩ := wordPrefix_of_stands h hclosed
  obtain ⟨-, rfl, rfl⟩ := h
  have hread : Reads (rules.call source k) source V skip
      ((tick.orElse variableName).orElse constant) c
        ⟨⟨source, c.pos, (c.skip name).pos⟩, .constant value⟩ (c.skip name) := by
    refine Or.inr fun v hv => ?_
    obtain ⟨f, hf⟩ : ∃ f, tick.eval (rules.call source k) source (c.before v) = .fail f :=
      eval_tick_of_head fun hhead =>
        ne_of_isWordStart hch (by decide) (head_append (V := V) hr v hv _ hhead).symm
    have htoken : ((lexeme skip identifier).eval (rules.call source k) source
        (c.before v)).Follows ⟨⟨source, c.pos, (c.skip name).pos⟩, name⟩
          (skip.eval (rules.call source k) source ((c.before v).skip name)) :=
      follows_lexeme (eval_identifier_of_some _ _ (hword v hv))
    have hname : (varName.eval (rules.call source k) source (c.before v)).FailsAfter
        (skip.eval (rules.call source k) source ((c.before v).skip name)) :=
      (htoken.reject fun n => by simp [hfree]; rfl).orElse_fail _
    have hconstant : (constant.eval (rules.call source k) source (c.before v)).Follows
        ⟨⟨source, c.pos, (c.skip name).pos⟩, .constant value⟩
          (skip.eval (rules.call source k) source ((c.before v).skip name)) := by
      have hentry : ((keywordTable skip constantTable).eval (rules.call source k) source
          (c.before v)).Follows ⟨⟨source, c.pos, (c.skip name).pos⟩, value⟩
            (skip.eval (rules.call source k) source ((c.before v).skip name)) :=
        htoken.andThen fun n => by simp only [hlookup]
      exact hentry.andThen fun n => rfl
    rw [Cursor.before_skip hr']
    rw [Parser.eval_orElse, Parser.eval_orElse, hf]
    exact ((hname.andThen _).fail_orElse f).orElse hconstant
  exact reads_expr_of_foldl [variableName, constant] ⟨_, rfl⟩ hread

/-- Where digits come next, what an expression tries before a numeral fails. -/
theorem declines_before_natLit (h : ∀ v, V v → ∀ ch ∈ (c.rest ++ v).head?, isDigit ch = true) :
    Declines (rules.call source k) source V ((tick.orElse variableName).orElse constant) c := by
  have hword : ∀ v, V v → ∀ ch ∈ (c.rest ++ v).head?, isWordStart ch = false :=
    fun v hv ch hch => isWordStart_of_isDigit (h v hv ch hch)
  have htick : Declines (rules.call source k) source V tick c := by
    refine declines_tick fun v hv hquote => ?_
    have hdigit := h v hv '\'' hquote
    revert hdigit
    decide
  exact Declines.orElse (Declines.orElse htick (Declines.map _ (declines_varName hword)))
    (declines_constant hword)

theorem reads_natLit {loc : Location} {run : Text} {value : Nat}
    (h : (SExpr.numeral loc run).StandsBy G source c m)
    (hclosed : (SExpr.numeral loc run).Closed V m) (hvalue : readNumeral run = .ok value) :
    Reads (rules.call source k) source V skip expr c ⟨loc, .natLit value⟩ m := by
  obtain ⟨r, hr, hdigits⟩ := digitPrefix_of_stands h hclosed
  obtain ⟨hrun, rfl, rfl⟩ := h
  obtain ⟨ch, t, rfl, hch⟩ := head_of_digitPrefix hrun
  have hhead : ∀ v, V v → ∀ x ∈ (c.rest ++ v).head?, isDigit x = true := by
    intro v hv x hx
    rw [head_append (V := V) (show c.rest = ch :: (t ++ r) from hr) v hv x hx]
    exact hch
  have hnatural : Reads (rules.call source k) source V skip natLit c
      ⟨⟨source, c.pos, (c.skip (ch :: t)).pos⟩, .natLit value⟩ (c.skip (ch :: t)) :=
    Reads.map (Located.map Node.natLit) (Reads.natural hr hdigits hvalue)
  exact reads_expr_of_foldl [variableName, constant, natLit] ⟨_, rfl⟩
    (Reads.orElse_right (declines_before_natLit hhead) hnatural)

/-- A parenthesized expression, from what stands between the parentheses. -/
theorem reads_compound {c₁ : Cursor} {node : Node} {r r' : Text} (hr : c.rest = '(' :: r)
    (hbefore : Returns (rules.call source k) source V skip (c.skip ['(']) () c₁)
    (hinside : Returns (rules.call source k) source V
      ((dispatch headTable headBody).orElse application) c₁ node d) (hr' : d.rest = ')' :: r') :
    Reads (rules.call source k) source V skip expr c
      ⟨⟨source, c.pos, (d.skip [')']).pos⟩, node⟩ (d.skip [')']) := by
  have hhead := head_append (V := V) hr
  have hword : ∀ v, V v → ∀ x ∈ (c.rest ++ v).head?, isWordStart x = false := by
    intro v hv x hx
    rw [hhead v hv x hx]
    decide
  have hdigit : ∀ v, V v → ∀ x ∈ (c.rest ++ v).head?, isDigit x = false := by
    intro v hv x hx
    rw [hhead v hv x hx]
    decide
  have htick : Declines (rules.call source k) source V tick c := by
    refine declines_tick fun v hv hquote => ?_
    have hopen := hhead v hv '\'' hquote
    revert hopen
    decide
  have hcompound : Reads (rules.call source k) source V skip compound c
      ⟨⟨source, c.pos, (d.skip [')']).pos⟩, node⟩ (d.skip [')']) :=
    Reads.parensLocated hr hbefore hinside hr'
  exact reads_expr_of_foldl [variableName, constant, natLit, compound] (List.prefix_refl _)
    (Reads.orElse_right (Declines.orElse (Declines.orElse (Declines.orElse htick
      (Declines.map _ (declines_varName hword))) (declines_constant hword))
        (declines_natLit hdigit)) hcompound)

end Grammar

end PieSyntax
