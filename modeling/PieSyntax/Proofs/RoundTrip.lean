import PieSyntax.Proofs.Invariant
import PieSyntax.Proofs.Layout
import PieSyntax.Proofs.Printing

/-!
# Printing and reading again

A program that is written down in any spelling and with any separators is read as that program, and
whatever is read can be written down.  With single spaces between the tokens the trivia take up no
room under the ceiling, so a program that was read is read again: it is not too deep.

## Main results

* `parseSource_of_laid` — a program is read wherever its tokens are laid out.
* `parseSource_printProgram` — what was read is read again when it is printed.
* `parseSource_printed` — printing and reading are inverse, up to locations, on well-formed programs,
  and what is read is well formed.
-/

namespace PieSyntax

variable {ceiling : Nat}

/-- The tokens, each with a space after it. -/
def layOut : List Text → Text
  | [] => []
  | token :: tokens => token ++ ([' '] ++ layOut tokens)

/-- A program in its chosen spelling, with a space after each token. -/
def printProgram (ts : List TopLevel) : Text :=
  Grammar.header ++ (['\n'] ++ layOut (SExpr.allTokens (ts.map TopLevel.spell)))

/-! ## Single characters between the tokens -/

/-- A single whitespace character. -/
def Blank (g : Text) : Prop := ∃ ch ∈ whitespace, g = [ch]

/-- A gap with nothing in it that takes up room under the ceiling. -/
def Cursor.LightGap (c d : Cursor) : Prop :=
  c.Gap d ∧ Grammar.weight c.rest = Grammar.weight d.rest

theorem laid_layOut (tokens : List Text) : Laid Blank tokens (layOut tokens) [] := by
  induction tokens with
  | nil => exact .nil []
  | cons token tokens ih => exact .cons (Or.inl ⟨' ', by decide, rfl⟩) ih

theorem fits_blank : Fits Blank Cursor.LightGap := by
  have hseparator : ∀ g, Blank g → Separator g := by
    rintro g ⟨ch, hch, rfl⟩
    exact .lastWhite hch
  have hweight : ∀ ch ∈ whitespace, Grammar.weight [ch] = 0 := by decide
  refine ⟨hseparator, fun c g s hc hg => ⟨?_, ?_⟩⟩
  · exact fits_separator.gap c g s hc (hg.imp_right (hseparator g))
  · rw [Cursor.rest_skip hc, hc, Grammar.weight_append]
    rcases hg with rfl | ⟨ch, hch, rfl⟩
    · exact Nat.zero_add _
    · rw [hweight ch hch, Nat.zero_add]

theorem skippable_lightGap (V : Tails) : Grammar.Skippable V Cursor.LightGap 1 := by
  refine ⟨fun c d h => h.1, fun c d h => Or.inr ?_⟩
  rw [h.2, Nat.add_comm]

/-! ## Programs -/

variable {source : String} {ts : List TopLevel} {xs : List (SExpr Unit)} {lead s : Text}

/-- The forms of a program stand where the tokens of a spelling of it are laid out. -/
theorem exists_standAll_of_laid {sep : Text → Prop} {G : Cursor → Cursor → Prop}
    (hfits : Fits sep G) (source : String) (hwf : ∀ t ∈ ts, t.WellFormed)
    (hspelled : List.Forall₂ TopLevel.SpelledBy ts xs) (hlead : lead = [] ∨ sep lead)
    (hs : Laid sep (SExpr.allTokens xs) s []) :
    ∃ ys c d ts', G ((Cursor.start (Grammar.header ++ (lead ++ s))).skip Grammar.header) c ∧
      SExpr.StandAllBy G source ys c d ∧ elaborateProgram id ys = some ts' ∧ d.rest = [] ∧
        ts'.map TopLevel.bare = ts.map TopLevel.bare := by
  obtain ⟨hmean, hlexical⟩ := elaborateProgram_of_spelledBy hspelled hwf
  have hstart : ((Cursor.start (Grammar.header ++ (lead ++ s))).skip Grammar.header).rest =
      lead ++ s := Cursor.rest_skip rfl
  have hgap := hfits.gap _ lead s hstart hlead
  obtain ⟨c, hgap, hc⟩ : ∃ c, G ((Cursor.start (Grammar.header ++ (lead ++ s))).skip
      Grammar.header) c ∧ c.rest = s :=
    ⟨_, hfits.gap _ lead s hstart hlead, Cursor.rest_skip hstart⟩
  rw [← hc] at hs
  obtain ⟨ys, d, hplain, hstands, hd⟩ : ∃ ys d, SExpr.plainAll ys = xs ∧
      SExpr.StandAllBy G source ys c d ∧ d.rest = [] := standAll_of_laid hfits xs hlexical hs
  rw [← hplain, elaborateProgram_plainAll] at hmean
  obtain ⟨ts', hts', hbare⟩ := Option.map_eq_some_iff.mp hmean
  exact ⟨ys, c, d, ts', hgap, hstands, hts', hd, hbare⟩

/-- A program is read where the tokens of a spelling of it are laid out. -/
theorem parseSource_of_laid (hwf : ∀ t ∈ ts, t.WellFormed)
    (hspelled : List.Forall₂ TopLevel.SpelledBy ts xs) (hlead : lead = [] ∨ Separator lead)
    (hs : Laid Separator (SExpr.allTokens xs) s [])
    (hbelow : BelowCeiling (parseSource source (Grammar.header ++ (lead ++ s)) ceiling)) :
    ∃ ts', parseSource source (Grammar.header ++ (lead ++ s)) ceiling = .ok ts' ∧
      ts'.map TopLevel.bare = ts.map TopLevel.bare := by
  obtain ⟨ys, c, d, ts', hgap, hstands, hmean, hd, hbare⟩ :=
    exists_standAll_of_laid fits_separator source hwf hspelled hlead hs
  exact ⟨ts', parseSource_of_stands hbelow rfl hgap hstands hmean hd, hbare⟩

/-- A program that was read can be spelled. -/
theorem spelledBy_spell_of_parseSource
    (h : parseSource source s ceiling = .ok ts) :
    List.Forall₂ TopLevel.SpelledBy ts (ts.map TopLevel.spell) := by
  rw [List.forall₂_map_right_iff, List.forall₂_same]
  intro t ht
  obtain ⟨xs, c₁, d, r, -, -, hxs, hmean, -⟩ := stands_of_parseSource h
  obtain ⟨x, hx, hmean'⟩ := exists_of_mem_program hmean ht
  obtain ⟨c', m', -, hstands, -⟩ := hxs.mem hx
  refine topLevel_spelledBy_spell fun e he => ?_
  obtain ⟨y, hy, hmean''⟩ := exists_within_of_mem_topLevel hmean' he
  exact short_of_elaborate hmean'' fun z hz => hstands.lexical z (x.within_subset hy hz)

/-- A program that was read is read again when it is printed: its trees leave room under the
ceiling, and single spaces need none. -/
theorem parseSource_printProgram (h : parseSource source s ceiling = .ok ts) :
    ∃ ts', parseSource source (printProgram ts) ceiling = .ok ts' ∧
      ts'.map TopLevel.bare = ts.map TopLevel.bare := by
  obtain ⟨ys, c, d, ts', hgap, hstands, hmean, hd, hbare⟩ :=
    exists_standAll_of_laid fits_blank source (wellFormed_of_parseSource h)
      (spelledBy_spell_of_parseSource h) (Or.inr ⟨'\n', by decide, rfl⟩) (laid_layOut _)
  have hdepth : ∀ t' ∈ ts', t'.depth + 1 ≤ ceiling := by
    intro t' ht'
    have hmem : t'.bare ∈ ts.map TopLevel.bare := hbare ▸ List.mem_map_of_mem ht'
    obtain ⟨t, ht, heq⟩ := List.mem_map.mp hmem
    rw [← TopLevel.depth_eq_of_bare heq]
    exact depth_lt_of_parseSource h ht
  have hrun : Parser.Returns (Grammar.rules.call source ceiling) source (.empty False)
      Grammar.program (.start (printProgram ts)) ts' d :=
    Grammar.returns_program (skippable_lightGap _) rfl hgap hstands hmean hd
      (Or.inr (Nat.le_add_left 1 ceiling)) fun t' ht' => Or.inr (hdepth t' ht')
  exact ⟨ts', parseSource_eq_ok_iff.mpr ⟨d, hrun.eval_ok⟩, hbare⟩

/-- A well-formed program is read from any of its spellings in any layout.  What is read is well
formed, and is read again when it is printed. -/
theorem parseSource_printed (source : String) :
    (∀ (ts : List TopLevel) (xs : List (SExpr Unit)) (lead s : Text),
      (∀ t ∈ ts, t.WellFormed) → List.Forall₂ TopLevel.SpelledBy ts xs →
        (lead = [] ∨ Separator lead) → Laid Separator (SExpr.allTokens xs) s [] →
          BelowCeiling (parseSource source (Grammar.header ++ (lead ++ s)) ceiling) →
            ∃ ts', parseSource source (Grammar.header ++ (lead ++ s)) ceiling = .ok ts' ∧
              ts'.map TopLevel.bare = ts.map TopLevel.bare) ∧
    ∀ (s : Text) (ts : List TopLevel), parseSource source s ceiling = .ok ts →
      (∀ t ∈ ts, t.WellFormed) ∧
        ∃ ts', parseSource source (printProgram ts) ceiling = .ok ts' ∧
          ts'.map TopLevel.bare = ts.map TopLevel.bare := by
  constructor
  · intro ts xs lead s hwf hspelled hlead hs hbelow
    exact parseSource_of_laid hwf hspelled hlead hs hbelow
  · intro s ts h
    exact ⟨wellFormed_of_parseSource h, parseSource_printProgram h⟩

/-- The example `(λ (x) 7)`. -/
def smallForm : TopLevel :=
  ⟨.nowhere, .expr ⟨.nowhere, .lambda [⟨.nowhere, "x".toList⟩] ⟨.nowhere, .natLit 7⟩⟩⟩

/-- A spelling of it, with a Greek letter and two zeros. -/
def smallSpelling : SExpr Unit :=
  .list () [.word () "λ".toList, .list () [.word () "x".toList], .numeral () "007".toList]

/-- The spelling with a space after each token. -/
def smallText : Text := "( λ ( x ) 007 ) ".toList

theorem smallForm_wellFormed : smallForm.WellFormed := by
  refine ⟨trivial, fun e he => ?_⟩
  have hmem : e ∈ [(⟨.nowhere, .lambda [⟨.nowhere, "x".toList⟩] ⟨.nowhere, .natLit 7⟩⟩ : Expr),
      ⟨.nowhere, .natLit 7⟩] := he
  simp only [List.mem_cons, List.not_mem_nil, or_false] at hmem
  rcases hmem with rfl | rfl
  · refine ⟨List.cons_ne_nil _ _, fun b hb => ?_⟩
    rw [List.mem_singleton.mp hb]
    exact ⟨by decide +kernel, by decide +kernel⟩
  · trivial

theorem smallForm_spelledBy : smallForm.SpelledBy smallSpelling :=
  ⟨_, _, rfl, ⟨"λ", by decide, rfl⟩, 2, rfl, by decide +kernel⟩

/-- The small form is read from its spelling; what is read is well formed, and is read again. -/
theorem parseSource_smallText : ∃ ts,
    parseSource "small.pie" (Grammar.header ++ (['\n'] ++ smallText)) = .ok ts ∧
      ts.map TopLevel.bare = [smallForm.bare] ∧ (∀ t ∈ ts, t.WellFormed) ∧
        ∃ ts', parseSource "small.pie" (printProgram ts) = .ok ts' ∧
          ts'.map TopLevel.bare = ts.map TopLevel.bare := by
  have hlaid : Laid Separator (SExpr.allTokens [smallSpelling]) smallText [] :=
    (laid_layOut _).mono fits_blank.separator
  have hbelow : BelowCeiling
      (parseSource "small.pie" (Grammar.header ++ (['\n'] ++ smallText))) := by
    obtain ⟨ts, hts⟩ := exists_eq_ok_of_isSome
      (o := parseSource "small.pie" (Grammar.header ++ (['\n'] ++ smallText)))
      (by decide +kernel)
    exact hts ▸ BelowCeiling.ok ts
  obtain ⟨ts, hts, hbare⟩ := (parseSource_printed "small.pie").1 [smallForm] [smallSpelling]
    ['\n'] smallText (by simpa using smallForm_wellFormed)
    (.cons smallForm_spelledBy .nil) (Or.inr (.lastWhite (by decide))) hlaid hbelow
  exact ⟨ts, hts, hbare, (parseSource_printed "small.pie").2 _ ts hts⟩

end PieSyntax
