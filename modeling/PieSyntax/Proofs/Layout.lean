import PieSyntax.Proofs.Cut
import PieSyntax.Proofs.WellFormed

/-!
# Laying out tokens

A program is written down as a sequence of tokens with separators between them.  A separator is any
mix of whitespace, line comments and datum comments that ends in whitespace or with a line; it is
never needed that it be this one or that.  Which of them a layout uses is a parameter, for the gaps
that they make may be of a special kind.

## Main results

* `Separator.dropped` — a separator is trivia, whatever comes after it.
* `stands_of_laid`, `standAll_of_laid` — an S-expression stands where its tokens are laid out.
-/

namespace PieSyntax

/-! ## Tokens -/

mutual

/-- The tokens of an S-expression in order. -/
def SExpr.tokens {L : Type} : SExpr L → List Text
  | .word _ name => [name]
  | .quoted _ name => ['\'' :: name]
  | .numeral _ run => [run]
  | .list _ items => ['('] :: (SExpr.allTokens items ++ [[')']])

/-- The tokens of several S-expressions in order. -/
def SExpr.allTokens {L : Type} : List (SExpr L) → List Text
  | [] => []
  | x :: xs => x.tokens ++ SExpr.allTokens xs

end

/-- Trivia between two tokens: whitespace, line comments with their newlines and datum comments in
any mix, of which the last is no datum comment. -/
inductive Separator : Text → Prop where
  | lastWhite {ch : Char} (hch : ch ∈ whitespace) : Separator [ch]
  | lastLine {body : Text} (hbody : '\n' ∉ body) : Separator (';' :: (body ++ ['\n']))
  | white {ch : Char} {g : Text} (hch : ch ∈ whitespace) (h : Separator g) : Separator (ch :: g)
  | line {body g : Text} (hbody : '\n' ∉ body) (h : Separator g) :
    Separator (';' :: (body ++ '\n' :: g))
  /-- After the mark there are trivia and then a datum. -/
  | comment {s s₁ g : Text} (hbefore : Dropped .trivia s s₁) (hdatum : Dropped .datum s₁ [])
    (h : Separator g) : Separator ('#' :: ';' :: (s ++ g))

/-- The text starts with the tokens, each followed by a separator from `sep`, and goes on with `r`.
A token that ends the text needs no separator. -/
inductive Laid (sep : Text → Prop) : List Text → Text → Text → Prop where
  | nil (r : Text) : Laid sep [] r r
  | cons {token g s r : Text} {tokens : List Text} (hg : sep g ∨ g = [] ∧ s = [])
    (h : Laid sep tokens s r) : Laid sep (token :: tokens) (token ++ (g ++ s)) r

section

variable {sep : Text → Prop}

theorem Laid.uncons {token s r : Text} {tokens : List Text} (h : Laid sep (token :: tokens) s r) :
    ∃ g s', s = token ++ (g ++ s') ∧ (sep g ∨ g = [] ∧ s' = []) ∧ Laid sep tokens s' r := by
  cases h with
  | cons hg h => exact ⟨_, _, rfl, hg, h⟩

theorem Laid.mono {sep' : Text → Prop} (hsep : ∀ g, sep g → sep' g) {tokens : List Text}
    {s r : Text} (h : Laid sep tokens s r) : Laid sep' tokens s r := by
  induction h with
  | nil r => exact .nil r
  | cons hg h ih => exact .cons (hg.imp_left (hsep _)) ih

theorem Laid.single {token s r : Text} (h : Laid sep [token] s r) :
    ∃ g, s = token ++ (g ++ r) ∧ (sep g ∨ g = [] ∧ r = []) := by
  obtain ⟨g, s', rfl, hg, h⟩ := h.uncons
  cases h
  exact ⟨g, rfl, hg⟩

theorem Laid.append {tokens tokens' : List Text} {s r : Text}
    (h : Laid sep (tokens ++ tokens') s r) :
    ∃ m, Laid sep tokens s m ∧ Laid sep tokens' m r := by
  induction tokens generalizing s with
  | nil => exact ⟨s, .nil s, h⟩
  | cons token tokens ih =>
      obtain ⟨g, s', rfl, hg, h⟩ := h.uncons
      obtain ⟨m, hm, hr⟩ := ih h
      exact ⟨m, .cons hg hm, hr⟩

end

/-! ## Separators -/

theorem boundary_of_startsTrivia {ch : Char} (h : startsTrivia ch = true) (s : Text) :
    Boundary (ch :: s) := by
  have hall : ∀ ch ∈ whitespace ++ [';', '#'], isSubsequent ch = false := by decide
  intro x hx
  cases hx
  exact hall ch (List.contains_iff_mem.mp h)

theorem Separator.start {g : Text} (h : Separator g) :
    ∃ ch t, g = ch :: t ∧ startsTrivia ch = true := by
  have hwhite : ∀ ch ∈ whitespace, startsTrivia ch = true := by decide
  cases h with
  | lastWhite hch => exact ⟨_, _, rfl, hwhite _ hch⟩
  | lastLine hbody => exact ⟨_, _, rfl, by decide⟩
  | white hch h => exact ⟨_, _, rfl, hwhite _ hch⟩
  | line hbody h => exact ⟨_, _, rfl, by decide⟩
  | comment hbefore hdatum h => exact ⟨_, _, rfl, by decide⟩

/-- No word or numeral goes on into a separator. -/
theorem Separator.boundary {g : Text} (h : Separator g) (r : Text) : Boundary (g ++ r) := by
  obtain ⟨ch, t, rfl, hch⟩ := h.start
  exact boundary_of_startsTrivia hch _

/-- A separator is trivia, whatever comes after it. -/
theorem Separator.dropped {g : Text} (h : Separator g) (r : Text) :
    Dropped .trivia (g ++ r) r := by
  induction h with
  | lastWhite hch => exact .white hch (.none r)
  | @lastLine body hbody =>
      rw [List.cons_append, List.append_assoc]
      exact .line hbody (.none r)
  | white hch h ih => exact .white hch ih
  | @line body g hbody h ih =>
      rw [List.cons_append, List.append_assoc]
      exact .line hbody ih
  | @comment s s₁ g hbefore hdatum h ih =>
      have hbefore' : Dropped .trivia (s ++ (g ++ r)) (s₁ ++ (g ++ r)) :=
        hbefore.append (Or.inl hdatum.solid.2)
      have hdatum' : Dropped .datum (s₁ ++ (g ++ r)) ([] ++ (g ++ r)) :=
        hdatum.append (Or.inr ⟨rfl, h.boundary r⟩)
      rw [List.cons_append, List.cons_append, List.append_assoc]
      exact .comment hbefore' hdatum' ih

/-! ## Tokens in their places -/

/-- The texts in `sep` are separators, and make gaps of the kind `G`. -/
structure Fits (sep : Text → Prop) (G : Cursor → Cursor → Prop) : Prop where
  separator : ∀ g, sep g → Separator g
  gap : ∀ (c : Cursor) (g s : Text), c.rest = g ++ s → g = [] ∨ sep g → G c (c.skip g)

theorem fits_separator : Fits Separator Cursor.Gap := by
  refine ⟨fun _ hg => hg, fun c g s hc hg => ⟨Cursor.reaches_skip hc, ?_⟩⟩
  rw [Cursor.rest_skip hc, hc]
  rcases hg with rfl | hg
  · exact .none s
  · exact hg.dropped s

variable {sep : Text → Prop} {G : Cursor → Cursor → Prop} {source : String}

/-- What may follow a token ends it, and is a gap. -/
theorem Fits.boundary (hfits : Fits sep G) {g s : Text} (hg : sep g ∨ g = [] ∧ s = []) :
    Boundary (g ++ s) := by
  rcases hg with hg | ⟨rfl, rfl⟩
  · exact (hfits.separator g hg).boundary s
  · intro ch hch
    cases hch

theorem Fits.exists_gap (hfits : Fits sep G) {c : Cursor} {g s : Text} (hc : c.rest = g ++ s)
    (hg : sep g ∨ g = [] ∧ s = []) : ∃ d, G c d ∧ d.rest = s :=
  ⟨c.skip g, hfits.gap c g s hc (hg.symm.imp And.left id), Cursor.rest_skip hc⟩

mutual

/-- An S-expression stands where its tokens are laid out, with a gap after it. -/
theorem stands_of_laid (hfits : Fits sep G) (x : SExpr Unit) (hx : x.Lexical) {c : Cursor} {r : Text}
    (h : Laid sep x.tokens c.rest r) :
    ∃ y m c₁, SExpr.plain y = x ∧ y.StandsBy G source c m ∧ G m c₁ ∧ c₁.rest = r := by
  match x with
  | .word label name =>
      obtain ⟨g, hc, hg⟩ := Laid.single h
      have hword : wordPrefix c.rest = some name :=
        wordPrefix_eq_some_iff.mpr
          ⟨_, hc, hx _ (SExpr.mem_within_self _), hfits.boundary hg⟩
      obtain ⟨c₁, hgap, hc₁⟩ := hfits.exists_gap (Cursor.rest_skip hc) hg
      exact ⟨.word ⟨source, c.pos, (c.skip name).pos⟩ name, c.skip name, c₁, rfl,
        ⟨hword, rfl, rfl⟩, hgap, hc₁⟩
  | .quoted label name =>
      obtain ⟨g, hc, hg⟩ := Laid.single h
      have hword : wordPrefix (name ++ (g ++ r)) = some name :=
        wordPrefix_eq_some_iff.mpr
          ⟨_, rfl, hx _ (SExpr.mem_within_self _), hfits.boundary hg⟩
      obtain ⟨c₁, hgap, hc₁⟩ := hfits.exists_gap (Cursor.rest_skip hc) hg
      exact ⟨.quoted ⟨source, c.pos, (c.skip ('\'' :: name)).pos⟩ name, c.skip ('\'' :: name),
        c₁, rfl, ⟨_, hc, hword, rfl, rfl⟩, hgap, hc₁⟩
  | .numeral label run =>
      obtain ⟨g, hc, hg⟩ := Laid.single h
      obtain ⟨hne, hall⟩ : run ≠ [] ∧ ∀ ch ∈ run, isDigit ch = true :=
        hx _ (SExpr.mem_within_self _)
      have hrun : digitPrefix c.rest = some run :=
        digitPrefix_eq_some_iff.mpr ⟨_, hc, hne, hall, boundary_digit (hfits.boundary hg)⟩
      obtain ⟨c₁, hgap, hc₁⟩ := hfits.exists_gap (Cursor.rest_skip hc) hg
      exact ⟨.numeral ⟨source, c.pos, (c.skip run).pos⟩ run, c.skip run, c₁, rfl,
        ⟨hrun, rfl, rfl⟩, hgap, hc₁⟩
  | .list label items =>
      rw [SExpr.tokens] at h
      obtain ⟨g, s, hc, hg, h⟩ := h.uncons
      obtain ⟨c₁, hgap, hc₁⟩ := hfits.exists_gap (Cursor.rest_skip hc) hg
      obtain ⟨s', hitems, hclose⟩ := h.append
      rw [← hc₁] at hitems
      obtain ⟨ys, d, hplain, hall, hd⟩ :=
        standAll_of_laid hfits items (fun x hx' => hx.of_mem hx') hitems
      obtain ⟨g', hd', hg'⟩ := hclose.single
      obtain ⟨c₂, hgap', hc₂⟩ := hfits.exists_gap (Cursor.rest_skip (hd.trans hd')) hg'
      refine ⟨.list ⟨source, c.pos, (d.skip [')']).pos⟩ ys, d.skip [')'], c₂, ?_,
        ⟨c₁, d, ⟨_, hc⟩, hgap, hall, ⟨_, hd.trans hd'⟩, rfl, rfl⟩, hgap', hc₂⟩
      rw [SExpr.plain, SExpr.map]
      exact congrArg (SExpr.list ()) hplain

/-- S-expressions stand where their tokens are laid out. -/
theorem standAll_of_laid (hfits : Fits sep G) (xs : List (SExpr Unit))
    (hxs : ∀ x ∈ xs, x.Lexical) {c : Cursor} {r : Text}
    (h : Laid sep (SExpr.allTokens xs) c.rest r) :
    ∃ ys d, SExpr.plainAll ys = xs ∧ SExpr.StandAllBy G source ys c d ∧ d.rest = r := by
  match xs with
  | [] =>
      obtain ⟨s, hc, hs⟩ : ∃ s, c.rest = s ∧ Laid sep [] s r := ⟨c.rest, rfl, h⟩
      cases hs
      exact ⟨[], c, rfl, rfl, hc⟩
  | x :: xs =>
      rw [SExpr.allTokens] at h
      obtain ⟨s, hx, hall⟩ := h.append
      obtain ⟨y, m, c₁, hplain, hy, hgap, hc₁⟩ := stands_of_laid hfits x (hxs x (by simp)) hx
      rw [← hc₁] at hall
      obtain ⟨ys, d, hplainAll, hys, hd⟩ :=
        standAll_of_laid hfits xs (fun z hz => hxs z (by simp [hz])) hall
      refine ⟨y :: ys, d, ?_, ⟨m, c₁, hy, hgap, hys⟩, hd⟩
      rw [SExpr.plainAll, SExpr.mapAll]
      exact congrArg₂ List.cons hplain hplainAll

end

end PieSyntax
