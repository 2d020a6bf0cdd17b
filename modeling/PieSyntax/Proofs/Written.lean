import PieSyntax.Proofs.RoundTrip

/-!
# S-expressions written down

A list is written with something between any two of its items, and with nothing after the opening
parenthesis or before the closing one.  What stands between two items is a parameter, as it is for a
layout of tokens; the program that is written so is read, whatever the layout.

How deep the trees are is known from the trees, and how much room a separator takes is known from the
separator.  So a text with few levels is read without further assumptions, and any other is read unless
it is nested too deeply.

## Main results

* `stands_of_written`, `standAll_of_written` — an S-expression stands where it is written.
* `parseExpression_of_written` — an expression that is written down is read.
* `parseSource_of_written` — a program that is written down is read.
-/

namespace PieSyntax

variable {ceiling : Nat}

mutual

/-- The text is the S-expression, with a text from `sep` between any two items of a list. -/
def SExpr.Written (sep : Text → Prop) : SExpr Unit → Text → Prop
  | .word _ name, s => s = name
  | .quoted _ name, s => s = '\'' :: name
  | .numeral _ run, s => s = run
  | .list _ items, s => ∃ body, SExpr.AllWritten sep items body ∧ s = '(' :: (body ++ [')'])

/-- The text is the S-expressions one after the other, with a text from `sep` after each; after the
last one it may be missing. -/
def SExpr.AllWritten (sep : Text → Prop) : List (SExpr Unit) → Text → Prop
  | [], s => s = []
  | x :: xs, s =>
    ∃ u g v, x.Written sep u ∧ (sep g ∨ g = [] ∧ xs = []) ∧ SExpr.AllWritten sep xs v ∧
      s = u ++ (g ++ v)

end

variable {sep : Text → Prop} {G : Cursor → Cursor → Prop} {source : String} {c : Cursor}

/-! ## Where they stand -/

theorem Fits.boundary_of_sep (hfits : Fits sep G) {xs : List (SExpr Unit)} {g v r : Text}
    (hg : sep g ∨ g = [] ∧ xs = []) (hv : SExpr.AllWritten sep xs v) (hr : Boundary r) :
    Boundary (g ++ (v ++ r)) := by
  rcases hg with hg | ⟨rfl, rfl⟩
  · exact (hfits.separator g hg).boundary _
  · obtain rfl : v = [] := hv
    exact hr

theorem Fits.gap_of_sep (hfits : Fits sep G) {xs : List (SExpr Unit)} {g s : Text}
    (hc : c.rest = g ++ s) (hg : sep g ∨ g = [] ∧ xs = []) : G c (c.skip g) :=
  hfits.gap c g s hc (hg.symm.imp And.left id)

mutual

/-- An S-expression stands where it is written, if no word or numeral goes on after it. -/
theorem stands_of_written (hfits : Fits sep G) (x : SExpr Unit) (hx : x.Lexical) {c : Cursor}
    {s r : Text} (h : x.Written sep s) (hc : c.rest = s ++ r) (hr : Boundary r) :
    ∃ y m, SExpr.plain y = x ∧ y.StandsBy G source c m ∧ m.rest = r := by
  match x with
  | .word label name =>
      obtain rfl : s = name := h
      have hword : wordPrefix c.rest = some s :=
        wordPrefix_eq_some_iff.mpr ⟨r, hc, hx _ (SExpr.mem_within_self _), hr⟩
      exact ⟨.word ⟨source, c.pos, (c.skip s).pos⟩ s, c.skip s, rfl, ⟨hword, rfl, rfl⟩,
        Cursor.rest_skip hc⟩
  | .quoted label name =>
      obtain rfl : s = '\'' :: name := h
      have hword : wordPrefix (name ++ r) = some name :=
        wordPrefix_eq_some_iff.mpr ⟨r, rfl, hx _ (SExpr.mem_within_self _), hr⟩
      exact ⟨.quoted ⟨source, c.pos, (c.skip ('\'' :: name)).pos⟩ name, c.skip ('\'' :: name), rfl,
        ⟨_, hc, hword, rfl, rfl⟩, Cursor.rest_skip hc⟩
  | .numeral label run =>
      obtain rfl : s = run := h
      obtain ⟨hne, hall⟩ : s ≠ [] ∧ ∀ ch ∈ s, isDigit ch = true := hx _ (SExpr.mem_within_self _)
      have hrun : digitPrefix c.rest = some s :=
        digitPrefix_eq_some_iff.mpr ⟨r, hc, hne, hall, boundary_digit hr⟩
      exact ⟨.numeral ⟨source, c.pos, (c.skip s).pos⟩ s, c.skip s, rfl, ⟨hrun, rfl, rfl⟩,
        Cursor.rest_skip hc⟩
  | .list label items =>
      obtain ⟨body, hbody, rfl⟩ := h
      have hopen : c.rest = '(' :: (body ++ (')' :: r)) := by simpa using hc
      have hinside := Cursor.rest_skip (u := ['(']) hopen
      have hgap := hfits.gap (c.skip ['(']) [] _ hinside (Or.inl rfl)
      rw [Cursor.skip_nil] at hgap
      have hclosing : Boundary (')' :: r) := by
        intro ch hch
        cases hch
        decide
      obtain ⟨ys, d, hplain, hall, hd⟩ := standAll_of_written hfits items
        (fun x hx' => hx.of_mem hx') hbody hinside hclosing
      refine ⟨.list ⟨source, c.pos, (d.skip [')']).pos⟩ ys, d.skip [')'], ?_,
        ⟨_, d, ⟨_, hopen⟩, hgap, hall, ⟨r, hd⟩, rfl, rfl⟩, Cursor.rest_skip (u := [')']) hd⟩
      rw [SExpr.plain, SExpr.map]
      exact congrArg (SExpr.list ()) hplain

/-- S-expressions stand where they are written. -/
theorem standAll_of_written (hfits : Fits sep G) (xs : List (SExpr Unit))
    (hxs : ∀ x ∈ xs, x.Lexical) {c : Cursor} {s r : Text} (h : SExpr.AllWritten sep xs s)
    (hc : c.rest = s ++ r) (hr : Boundary r) :
    ∃ ys d, SExpr.plainAll ys = xs ∧ SExpr.StandAllBy G source ys c d ∧ d.rest = r := by
  match xs with
  | [] =>
      obtain rfl : s = [] := h
      exact ⟨[], c, rfl, rfl, hc⟩
  | x :: xs =>
      obtain ⟨u, g, v, hu, hg, hv, rfl⟩ := h
      have hsplit : c.rest = u ++ (g ++ (v ++ r)) := by simpa using hc
      obtain ⟨y, m, hplain, hy, hm⟩ := stands_of_written hfits x (hxs x (by simp)) hu hsplit
        (hfits.boundary_of_sep hg hv hr)
      obtain ⟨ys, d, hplainAll, hys, hd⟩ := standAll_of_written hfits xs
        (fun z hz => hxs z (by simp [hz])) hv (Cursor.rest_skip hm) hr
      refine ⟨y :: ys, d, ?_, ⟨m, m.skip g, hy, hfits.gap_of_sep hm hg, hys⟩, hd⟩
      rw [SExpr.plainAll, SExpr.mapAll]
      exact congrArg₂ List.cons hplain hplainAll

end

/-! ## Reading them -/

variable {cut : Prop} {g : Nat} {s : Text}

/-- What an S-expression means with its places is, up to these, what it means without them. -/
theorem elaborate_of_plain {x : SExpr Location} {e : Expr}
    (h : elaborate (fun _ => .nowhere) (SExpr.plain x) = some e) :
    ∃ e', elaborate id x = some e' ∧ exprDepth e' = exprDepth e := by
  have hmap : elaborate (fun _ => .nowhere) (SExpr.plain x) =
      (elaborate id x).map (relocateExpr fun _ => .nowhere) :=
    elaborate_map (f := fun _ => .nowhere) (g := fun _ => ()) (fun _ => rfl) x
  rw [hmap] at h
  obtain ⟨e', he', rfl⟩ := Option.map_eq_some_iff.mp h
  exact ⟨e', he', (depth_relocateExpr _ e').symm⟩

namespace Grammar

open PieSyntax.Parser

/-- An expression that is written down is read, and so is the end of the text after it. -/
theorem returns_of_written (hfits : Fits sep G) (hG : Skippable (.empty cut) G g) {x : SExpr Unit}
    {e : Expr} {k : Nat} (h : x.Written sep s) (hx : x.Lexical)
    (he : elaborate (fun _ => .nowhere) x = some e)
    (hroom : (Tails.empty cut).Room (exprDepth e + g) k) (allowTrailing : Bool) :
    ∃ e' d, Returns (rules.call source k) source (.empty cut) (expressionParser allowTrailing)
      (.start s) e' d := by
  obtain ⟨y, m, rfl, hy, hm⟩ : ∃ y m, SExpr.plain y = x ∧
      y.StandsBy G source (.start s) m ∧ m.rest = [] :=
    stands_of_written hfits x hx h (List.append_nil s).symm (fun ch hch => by cases hch)
  obtain ⟨e', he', hdepth⟩ := elaborate_of_plain he
  have hlow : (Tails.empty cut).Room g k := hroom.imp fun hk => by omega
  have hgap : ∀ c, G c c := fun c => by
    have hself := hfits.gap c [] c.rest rfl (Or.inl rfl)
    rwa [Cursor.skip_nil] at hself
  have hstart : Returns (rules.call source k) source (.empty cut) trivia (.start s) () (.start s) :=
    hG.returns_trivia (hgap _) (clear_of_solid hy.solid.1) (hlow.imp Nat.le_succ_of_le)
  have hend : Returns (rules.call source k) source (.empty cut) skip m () m :=
    hG.returns (hgap m) (clear_of_solid (solid_of_nil hm)) hlow
  have hexpr : Returns (rules.call source k) source (.empty cut) (trivia.andThen expr) (.start s)
      e' m :=
    Reads.andThen hstart (Reads.close (reads_expr hG hy he' (closed_empty y m) (hdepth ▸ hroom)) hend)
  have heof : Returns (rules.call source k) source (.empty cut) .eof m () m := by
    refine Returns.of_eval fun v hv => ?_
    obtain rfl : v = [] := hv
    have hat : (m.before []).atEnd = true := by
      rw [Cursor.atEnd, Cursor.before_rest, hm]
      rfl
    rw [Parser.eval, if_pos hat]
  cases allowTrailing with
  | true => exact ⟨e', m, hexpr⟩
  | false => exact ⟨e', m, Reads.followedBy hexpr heof⟩

end Grammar

/-- An expression that is written down is read if there is room for it under the ceiling, and
otherwise unless it is nested too deeply. -/
theorem parseExpression_of_written (hfits : Fits sep G)
    (hG : ∀ cut : Prop, Grammar.Skippable (.empty cut) G g) {x : SExpr Unit} {e : Expr}
    (h : x.Written sep s) (hx : x.Lexical) (he : elaborate (fun _ => .nowhere) x = some e)
    {allowTrailing : Bool} (hbelow : exprDepth e + g ≤ ceiling ∨
      BelowCeiling (parseExpression source s allowTrailing ceiling)) :
    ∃ e', parseExpression source s allowTrailing ceiling = .ok e' := by
  rcases hbelow with hroom | hbelow
  · obtain ⟨e', d, hreturns⟩ : ∃ e' d, Parser.Returns (Grammar.rules.call source ceiling)
        source (.empty False) (expressionParser allowTrailing) (.start s) e' d :=
      Grammar.returns_of_written hfits (hG False) h hx he (Or.inr hroom) allowTrailing
    exact ⟨e', parseExpression_eq_ok_iff.mpr ⟨d, hreturns.eval_ok⟩⟩
  · obtain ⟨e', d, hreturns⟩ : ∃ e' d, Parser.Returns (Grammar.rules.call source ceiling)
        source (.empty True) (expressionParser allowTrailing) (.start s) e' d :=
      Grammar.returns_of_written hfits (hG True) h hx he (Or.inl trivial) allowTrailing
    rcases hreturns.eval with ⟨-, hdeep⟩ | hok
    · exact absurd hdeep hbelow.parseExpression
    · exact ⟨e', parseExpression_eq_ok_iff.mpr ⟨d, hok⟩⟩

/-- A program that is written down is read if there is room for its forms under the ceiling. -/
theorem parseSource_of_written (source : String) (hfits : Fits sep G)
    (hG : Grammar.Skippable (.empty False) G g) {xs : List (SExpr Unit)} {ts : List TopLevel}
    {lead : Text} (hlead : sep lead) (h : SExpr.AllWritten sep xs s) (hxs : ∀ x ∈ xs, x.Lexical)
    (hts : elaborateProgram (fun _ => .nowhere) xs = some ts) (hlow : g ≤ ceiling + 1)
    (hroom : ∀ t ∈ ts, t.depth + g ≤ ceiling) :
    ∃ ts', parseSource source (Grammar.header ++ (lead ++ s)) ceiling = .ok ts' ∧
      ts'.map TopLevel.bare = ts := by
  have hstart : ((Cursor.start (Grammar.header ++ (lead ++ s))).skip Grammar.header).rest =
      lead ++ s := Cursor.rest_skip rfl
  have hgap := hfits.gap _ lead s hstart (Or.inr hlead)
  obtain ⟨ys, d, rfl, hall, hd⟩ : ∃ ys d, SExpr.plainAll ys = xs ∧
      SExpr.StandAllBy G source ys _ d ∧ d.rest = [] :=
    standAll_of_written hfits xs hxs h ((Cursor.rest_skip hstart).trans (List.append_nil s).symm)
      (fun ch hch => by cases hch)
  rw [elaborateProgram_plainAll] at hts
  obtain ⟨ts', hts', rfl⟩ := Option.map_eq_some_iff.mp hts
  have hdepth : ∀ t ∈ ts', t.depth + g ≤ ceiling := by
    intro t ht
    have hbare := hroom t.bare (List.mem_map_of_mem ht)
    rwa [TopLevel.bare, TopLevel.depth_relocate] at hbare
  have hrun : Parser.Returns (Grammar.rules.call source ceiling) source (.empty False)
      Grammar.program (.start (Grammar.header ++ (lead ++ s))) ts' d :=
    Grammar.returns_program hG rfl hgap hall hts' hd (Or.inr hlow) fun t ht => Or.inr (hdepth t ht)
  exact ⟨ts', parseSource_eq_ok_iff.mpr ⟨d, hrun.eval_ok⟩, rfl⟩

end PieSyntax
