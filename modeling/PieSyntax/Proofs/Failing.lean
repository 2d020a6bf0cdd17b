import PieSyntax.Proofs.Stands

/-!
# What a failure says

When a run fails, some part of the parser has failed where it was tried: for each way of building a
parser there is one statement which says how.  A failure stands at a cursor, and the literals that it
names are characters that were looked for there.

`f.At h hints` says that `f` stands at `h` and names none but the given characters, and
`f.UpTo h hints` that it does so or stands before.  Of several alternatives that fail, the furthest
decides: it is at `h` if one of them is and the others are up to there.

## Main results

* `Failure.At.furthest`, `Parser.at_of_eval_choice` — the furthest of several failures.
* `eval_text_fail`, `eval_identifier_fail` — where single texts and identifiers fail, and what they
  wait for.
* `Grammar.eval_parens_fail` — where a bracket fails.
-/

namespace PieSyntax

/-! ## Payloads and places -/

/-- The literals that the payload names are among the given characters. -/
def Expectation.Within (hints : List Char) (e : Expectation) : Prop :=
  ∀ literals descriptions, e = .expected literals descriptions →
    ∀ l ∈ literals, ∃ ch ∈ hints, l = String.singleton ch

namespace Expectation

variable {hints hints' : List Char} {e e' : Expectation}

theorem Within.mono (h : e.Within hints) (hsub : ∀ ch ∈ hints, ch ∈ hints') : e.Within hints' := by
  intro literals descriptions he l hl
  obtain ⟨ch, hch, rfl⟩ := h literals descriptions he l hl
  exact ⟨ch, hsub ch hch, rfl⟩

theorem within_generic : Within hints .generic := by
  intro literals descriptions he
  cases he

theorem within_endOfInput : Within hints .endOfInput := by
  intro literals descriptions he
  cases he

theorem within_ofDescription (d : String) : Within hints (.ofDescription d) := by
  intro literals descriptions he l hl
  rw [ofDescription] at he
  cases he
  simp at hl

theorem within_ofChar {ch : Char} (h : ch ∈ hints) : Within hints (.ofChar ch) := by
  intro literals descriptions he l hl
  rw [ofChar, ofLiteral] at he
  cases he
  refine ⟨ch, h, ?_⟩
  have hmem : String.singleton ch = l ∨ l ∈ (∅ : Std.ExtTreeSet String) := by
    simpa [compare_eq_iff_eq] using hl
  simpa [eq_comm] using hmem

theorem Within.merge (h : e.Within hints) (h' : e'.Within hints) : (e.merge e').Within hints := by
  intro literals descriptions he l hl
  cases e with
  | generic => exact h' literals descriptions (by simpa using he) l hl
  | endOfInput =>
      cases e' with
      | generic => cases he
      | endOfInput => cases he
      | expected l₂ d₂ => exact h' literals descriptions he l hl
  | expected l₁ d₁ =>
      cases e' with
      | generic => exact h literals descriptions he l hl
      | endOfInput => exact h literals descriptions he l hl
      | expected l₂ d₂ =>
          rw [Expectation.merge] at he
          cases he
          rcases Std.ExtTreeSet.mem_union_iff.mp hl with hl | hl
          · exact h l₁ d₁ rfl l hl
          · exact h' l₂ d₂ rfl l hl

end Expectation

namespace Failure

/-- The failure stands at the cursor and names no literals but the given characters. -/
structure At (h : Cursor) (hints : List Char) (f : Failure) : Prop where
  pos : f.pos = h.pos
  within : f.expectation.Within hints

/-- The failure stands before the cursor, or at it with no literals but the given characters. -/
def UpTo (h : Cursor) (hints : List Char) (f : Failure) : Prop := f.pos < h.pos ∨ f.At h hints

variable {h : Cursor} {hints hints' : List Char} {f g : Failure}

theorem At.upTo (hf : f.At h hints) : f.UpTo h hints := Or.inr hf

theorem At.mono (hf : f.At h hints) (hsub : ∀ ch ∈ hints, ch ∈ hints') : f.At h hints' :=
  ⟨hf.pos, hf.within.mono hsub⟩

/-- A failure at a cursor is up to every cursor further on. -/
theorem At.upTo_of_pos_lt {c : Cursor} (hf : f.At c hints) (hlt : c.pos < h.pos) :
    f.UpTo h hints' :=
  Or.inl (by rw [hf.pos]; exact hlt)

/-- A failure without literals is up to every cursor that can be got to. -/
theorem At.upTo_of_reaches {c : Cursor} (hf : f.At c []) (hc : c.Reaches h) :
    f.UpTo h hints := by
  rcases hc.pos_le with hlt | heq
  · exact hf.upTo_of_pos_lt hlt
  · exact Or.inr ⟨hf.pos.trans heq, hf.within.mono fun ch hch => by cases hch⟩

theorem At.furthest (hf : f.At h hints) (hg : g.UpTo h hints) : (f.furthest g).At h hints := by
  rcases hg with hlt | hg
  · rw [furthest_of_gt (by rw [hf.pos]; exact hlt)]
    exact hf
  · rw [furthest_of_pos_eq (hf.pos.trans hg.pos.symm)]
    exact ⟨hf.pos, hf.within.merge hg.within⟩

theorem At.furthest_right (hf : f.UpTo h hints) (hg : g.At h hints) :
    (f.furthest g).At h hints := by
  rw [furthest_comm]
  exact hg.furthest hf

theorem UpTo.furthest (hf : f.UpTo h hints) (hg : g.UpTo h hints) :
    (f.furthest g).UpTo h hints := by
  rcases hf with hf | hf
  · rcases hg with hg | hg
    · rcases Outcome.furthest_pos_eq_or f g with heq | heq
      · exact Or.inl (by rw [heq]; exact hf)
      · exact Or.inl (by rw [heq]; exact hg)
    · exact (At.furthest_right (Or.inl hf) hg).upTo
  · exact (hf.furthest hg).upTo

end Failure

/-- A cursor after some text stands at a later position. -/
theorem Cursor.pos_lt_skip (c : Cursor) {u : Text} (hne : u ≠ []) : c.pos < (c.skip u).pos :=
  Position.lt_advance c.pos hne

theorem Cursor.Reaches.pos_lt_of_skip {c h : Cursor} {u : Text} (hne : u ≠ [])
    (hreach : (c.skip u).Reaches h) : c.pos < h.pos := by
  rcases hreach.pos_le with hlt | heq
  · exact Position.lt_trans (c.pos_lt_skip hne) hlt
  · rw [← heq]
    exact c.pos_lt_skip hne

/-! ## Which part has failed -/

namespace Parser

variable {N : Type} {R : N → Type} {call : (n : N) → Cursor → Outcome (R n)} {source : String}
variable {α β : Type} {p q : Parser N R α} {c h : Cursor} {f : Failure}

theorem eval_bind_fail {next : α → Parser N R β}
    (hfail : (p.bind next).eval call source c = .fail f) :
    p.eval call source c = .fail f ∨
      ∃ a d, p.eval call source c = .ok a d ∧ (next a).eval call source d = .fail f := by
  rw [Parser.eval] at hfail
  exact Outcome.andThen_eq_fail hfail

/-- A value that is rejected is rejected where the parser started. -/
theorem eval_refine_fail {judge : α → Verdict β}
    (hfail : (p.refine judge).eval call source c = .fail f) :
    p.eval call source c = .fail f ∨
      ∃ a d e, p.eval call source c = .ok a d ∧ judge a = .reject e ∧ f = ⟨c.pos, e⟩ := by
  rw [Parser.eval] at hfail
  rcases Outcome.andThen_eq_fail hfail with hp | ⟨a, d, hp, hjudge⟩
  · exact Or.inl hp
  · cases hj : judge a with
    | accept b => rw [hj] at hjudge; cases hjudge
    | interrupt why => rw [hj] at hjudge; cases hjudge
    | reject e =>
        rw [hj] at hjudge
        cases hjudge
        exact Or.inr ⟨a, d, e, hp, hj, rfl⟩

theorem eval_map_fail {g : α → β} (hfail : (p.map g).eval call source c = .fail f) :
    p.eval call source c = .fail f := by
  rcases eval_refine_fail hfail with hp | ⟨a, d, e, -, hj, -⟩
  · exact hp
  · cases hj

theorem eval_guard_fail {test : α → Bool} {x : Expectation}
    (hfail : (p.guard test x).eval call source c = .fail f) :
    p.eval call source c = .fail f ∨ ∃ a d, p.eval call source c = .ok a d ∧ f = ⟨c.pos, x⟩ := by
  rcases eval_refine_fail hfail with hp | ⟨a, d, e, hp, hj, rfl⟩
  · exact Or.inl hp
  · split at hj
    · cases hj
    · cases hj
      exact Or.inr ⟨a, d, hp, rfl⟩

theorem eval_andThen_fail {r : Parser N R β}
    (hfail : (p.andThen r).eval call source c = .fail f) :
    p.eval call source c = .fail f ∨
      ∃ a d, p.eval call source c = .ok a d ∧ r.eval call source d = .fail f :=
  eval_bind_fail (show (p.bind fun _ => r).eval call source c = .fail f from hfail)

theorem eval_followedBy_fail {r : Parser N R β}
    (hfail : (p.followedBy r).eval call source c = .fail f) :
    p.eval call source c = .fail f ∨
      ∃ a d, p.eval call source c = .ok a d ∧ r.eval call source d = .fail f := by
  have hbind : (p.bind fun a => r.map fun _ => a).eval call source c = .fail f := hfail
  rcases eval_bind_fail hbind with hp | ⟨a, d, hp, hr⟩
  · exact Or.inl hp
  · exact Or.inr ⟨a, d, hp, eval_map_fail hr⟩

theorem eval_located_fail (hfail : p.located.eval call source c = .fail f) :
    p.eval call source c = .fail f := by
  rw [Parser.eval] at hfail
  rcases Outcome.andThen_eq_fail hfail with hp | ⟨a, d, -, hok⟩
  · exact hp
  · cases hok

theorem eval_orElse_fail (hfail : (p.orElse q).eval call source c = .fail f) :
    ∃ g₁ g₂, p.eval call source c = .fail g₁ ∧ q.eval call source c = .fail g₂ ∧
      f = g₁.furthest g₂ := by
  rw [eval_orElse] at hfail
  exact Outcome.orElse_eq_fail hfail

theorem eval_describe_fail {description : String}
    (hfail : (p.describe description).eval call source c = .fail f) :
    ∃ g, p.eval call source c = .fail g ∧ f = g.furthest ⟨c.pos, .ofDescription description⟩ := by
  obtain ⟨g₁, g₂, hp, hq, rfl⟩ := eval_orElse_fail (q := .fail (.ofDescription description)) hfail
  cases hq
  exact ⟨g₁, hp, rfl⟩

/-- Naming a production changes nothing but the descriptions at its start. -/
theorem at_of_eval_describe {description : String} {hints : List Char}
    (hfail : (p.describe description).eval call source c = .fail f) (hreach : c.Reaches h)
    (hp : ∀ g, p.eval call source c = .fail g → g.At h hints) : f.At h hints := by
  obtain ⟨g, hg, rfl⟩ := eval_describe_fail hfail
  have hname : Failure.At c [] ⟨c.pos, .ofDescription description⟩ :=
    ⟨rfl, Expectation.within_ofDescription _⟩
  exact (hp g hg).furthest (hname.upTo_of_reaches hreach)

/-- All alternatives of a choice that fails have failed, and none of them further on. -/
theorem exists_fail_of_eval_choice {ps : List (Parser N R α)}
    (hfail : (choice ps).eval call source c = .fail f) :
    ∀ p ∈ ps, ∃ g, p.eval call source c = .fail g ∧ g.pos ≤ f.pos := by
  intro p hp
  refine choice_of_mem call source (fun _ => True) (fun q => ∀ f,
    q.eval call source c = .fail f → ∃ g, p.eval call source c = .fail g ∧ g.pos ≤ f.pos)
    ?same (fun _ _ _ _ => trivial) ?left ?right (fun _ _ => trivial)
    ⟨p, hp, fun f hf => ⟨f, hf, Or.inr rfl⟩⟩ f hfail
  case same => exact fun _ _ heq hq => heq ▸ hq
  case left =>
    intro q r hq _ f hf
    obtain ⟨g₁, g₂, h₁, -, rfl⟩ := eval_orElse_fail hf
    obtain ⟨g, hg, hle⟩ := hq g₁ h₁
    have hle₁ : g₁.pos ≤ (g₁.furthest g₂).pos := by
      rw [Failure.furthest_comm]
      exact Failure.pos_le_furthest g₂ g₁
    exact ⟨g, hg, Position.le_trans hle hle₁⟩
  case right =>
    intro q r _ hr f hf
    obtain ⟨g₁, g₂, -, h₂, rfl⟩ := eval_orElse_fail hf
    obtain ⟨g, hg, hle⟩ := hr g₂ h₂
    exact ⟨g, hg, Position.le_trans hle (Failure.pos_le_furthest g₁ g₂)⟩

/-- A choice fails where one of its alternatives does, if the others get no further. -/
theorem at_of_eval_choice {ps : List (Parser N R α)} {hints : List Char}
    (hfail : (choice ps).eval call source c = .fail f)
    (hall : ∀ p ∈ ps, ∀ g, p.eval call source c = .fail g → g.UpTo h hints)
    (hsome : ∃ p ∈ ps, ∀ g, p.eval call source c = .fail g → g.At h hints) : f.At h hints := by
  -- Alternatives fail with the furthest of their failures.
  refine choice_of_mem call source
    (fun p => ∀ g, p.eval call source c = .fail g → g.UpTo h hints)
    (fun p => ∀ g, p.eval call source c = .fail g → g.At h hints)
    ?same ?orElse ?left ?right hall hsome f hfail
  case same => exact fun _ _ heq hp => heq ▸ hp
  case orElse =>
    intro p q hp hq g hg
    obtain ⟨g₁, g₂, h₁, h₂, rfl⟩ := eval_orElse_fail hg
    exact (hp g₁ h₁).furthest (hq g₂ h₂)
  case left =>
    intro p q hp hq g hg
    obtain ⟨g₁, g₂, h₁, h₂, rfl⟩ := eval_orElse_fail hg
    exact (hp g₁ h₁).furthest (hq g₂ h₂)
  case right =>
    intro p q hp hq g hg
    obtain ⟨g₁, g₂, h₁, h₂, rfl⟩ := eval_orElse_fail hg
    exact Failure.At.furthest_right (hp g₁ h₁) (hq g₂ h₂)

/-- A repetition drops the failure that ends it. -/
theorem eval_many_ne_fail (hcall : ∀ n c, (call n c).AheadOf c) (p : Parser N R α) (c : Cursor)
    (f : Failure) : p.many.eval call source c ≠ .fail f := by
  refine many_induction hcall (motive := fun _ o => o ≠ .fail f) ?done ?broken ?still ?round c
  case done => rintro c g - ⟨⟩
  case broken => rintro c why - ⟨⟩
  case still => rintro c d a - - ⟨⟩
  case round =>
    intro c d a o _ _ ih hfail
    rcases Outcome.andThen_eq_fail hfail with hrest | ⟨as, e, -, hok⟩
    · exact ih hrest
    · cases hok

/-- Where the text should end and does not, nothing is waited for. -/
theorem at_of_eval_eof (hfail : (Parser.eof : Parser N R Unit).eval call source c = .fail f) :
    f.At c [] := by
  rw [Parser.eval] at hfail
  split at hfail
  · cases hfail
  · cases hfail
    exact ⟨rfl, Expectation.within_endOfInput⟩

/-- A repetition up to a stop fails where neither of the two comes, maybe after other items. -/
theorem eval_manyTill_fail (hcall : ∀ n c, (call n c).AheadOf c) {stop : Parser N R β}
    (hfail : (p.manyTill stop).eval call source c = .fail f) :
    ∃ g, stop.eval call source c = .fail g ∧
      ((∃ g', p.eval call source c = .fail g' ∧ f = g.furthest g') ∨
        ∃ a d, p.eval call source c = .ok a d ∧ d.rest.length < c.rest.length ∧
          (p.manyTill stop).eval call source d = .fail f) := by
  rw [eval_manyTill hcall] at hfail
  cases hstop : stop.eval call source c with
  | ok b d => rw [hstop] at hfail; cases hfail
  | interrupted why => rw [hstop] at hfail; cases hfail
  | fail g =>
      rw [hstop] at hfail
      refine ⟨g, rfl, ?_⟩
      have hahead := eval_reaches hcall source p c
      cases hp : p.eval call source c with
      | interrupted why => rw [hp] at hfail; cases hfail
      | fail g' => rw [hp] at hfail; cases hfail; exact Or.inl ⟨g', rfl, rfl⟩
      | ok a d =>
          rw [hp] at hfail hahead
          by_cases hd : d.offset = c.offset
          · simp [hd] at hfail
          · simp only [hd, if_false] at hfail
            rcases Outcome.andThen_eq_fail hfail with hrest | ⟨as, e, -, hok⟩
            · exact Or.inr ⟨a, d, rfl, Cursor.Reaches.rest_lt hahead hd, hrest⟩
            · cases hok

end Parser

/-! ## Single characters and words -/

section

variable {N : Type} {R : N → Type} {call : (n : N) → Cursor → Outcome (R n)} {source : String}
variable {c : Cursor} {f : Failure}

theorem readChar_fail {test : Char → Bool} {e : Expectation} (h : c.readChar test e = .fail f) :
    f.pos = c.pos ∧ (f.expectation = .endOfInput ∨ f.expectation = e) := by
  unfold Cursor.readChar at h
  split at h
  · cases h
    exact ⟨rfl, Or.inl rfl⟩
  · split at h
    · cases h
    · cases h
      exact ⟨rfl, Or.inr rfl⟩

theorem at_of_readChar {test : Char → Bool} {e : Expectation} {hints : List Char}
    (h : c.readChar test e = .fail f) (he : e.Within hints) : f.At c hints := by
  obtain ⟨hpos, hpayload | hpayload⟩ := readChar_fail h
  · exact ⟨hpos, hpayload ▸ Expectation.within_endOfInput⟩
  · exact ⟨hpos, hpayload ▸ he⟩

theorem eval_char_fail {ch : Char}
    (h : (Parser.char ch : Parser N R Char).eval call source c = .fail f) :
    c.rest.head? ≠ some ch ∧ f.At c [ch] := by
  refine ⟨fun hhead => ?_, at_of_readChar h (Expectation.within_ofChar (by simp))⟩
  obtain ⟨r, hr⟩ := List.head?_eq_some_iff.mp hhead
  rw [eval_char_of_head call source hr] at h
  cases h

/-- A text fails at the first character that differs, and waits for that character. -/
theorem readText_fail {s : Text} (h : c.readText s = .fail f) :
    ∃ u ch s' r, s = u ++ ch :: s' ∧ c.rest = u ++ r ∧ r.head? ≠ some ch ∧
      f.At (c.skip u) [ch] := by
  induction s generalizing c with
  | nil => cases h
  | cons ch s ih =>
      rw [Cursor.readText] at h
      by_cases hhead : c.rest.head? = some ch
      · obtain ⟨r, hr⟩ := List.head?_eq_some_iff.mp hhead
        rw [readChar_of_test _ hr (by simp), Outcome.andThen_ok] at h
        obtain ⟨u, x, s', r', rfl, hr', hne, hat⟩ := ih h
        rw [Cursor.rest_skip (u := [ch]) (r := r) hr] at hr'
        rw [Cursor.skip_skip, List.singleton_append] at hat
        exact ⟨ch :: u, x, s', r', rfl, by rw [hr, hr']; rfl, hne, hat⟩
      · refine ⟨[], ch, s, c.rest, rfl, rfl, hhead, ?_⟩
        rw [Cursor.skip_nil]
        have hother : ∀ x ∈ c.rest.head?, decide (x = ch) = false := by
          intro x hx
          exact decide_eq_false fun he => hhead (he ▸ hx)
        obtain ⟨g, hg⟩ := readChar_of_head (.ofChar ch) hother
        rw [hg, Outcome.andThen_fail] at h
        cases h
        exact at_of_readChar hg (Expectation.within_ofChar (by simp))

theorem eval_text_fail {s : Text}
    (h : (Parser.text s : Parser N R Text).eval call source c = .fail f) :
    ∃ u ch s' r, s = u ++ ch :: s' ∧ c.rest = u ++ r ∧ r.head? ≠ some ch ∧
      f.At (c.skip u) [ch] := by
  rw [Parser.eval] at h
  cases hread : c.readText s with
  | ok a d => rw [hread] at h; cases h
  | interrupted why => rw [hread] at h; cases h
  | fail g =>
      rw [hread] at h
      cases h
      exact readText_fail hread

/-- The dots with which `...` may have begun. -/
def Dots (u : Text) : Prop := u = [] ∨ u = ['.'] ∨ u = ['.', '.']

/-- What an identifier waits for after some dots: at its start any of the signs, and then one more
dot. -/
def wordHints (u : Text) : List Char := if u = [] then ['+', '-', '.'] else ['.']

theorem dots_subset_wordHints (u : Text) : ∀ ch ∈ ['.'], ch ∈ wordHints u := by
  intro ch hch
  rw [List.mem_singleton.mp hch, wordHints]
  split <;> decide

/-- The text `...` fails after the dots with which it begins. -/
theorem eval_dots_fail (h : (Parser.text "...".toList : Parser N R Text).eval call source c =
      .fail f) : ∃ u r, Dots u ∧ c.rest = u ++ r ∧ r.head? ≠ some '.' ∧ f.At (c.skip u) ['.'] := by
  obtain ⟨u, x, s', r, hs, hr, hne, hat⟩ := eval_text_fail h
  match u, hs with
  | [], hs =>
      obtain rfl : '.' = x := (List.cons.inj hs).1
      exact ⟨[], r, Or.inl rfl, hr, hne, hat⟩
  | [_], hs =>
      simp at hs
      obtain ⟨rfl, rfl, -⟩ := hs
      exact ⟨['.'], r, Or.inr (Or.inl rfl), hr, hne, hat⟩
  | [_, _], hs =>
      simp at hs
      obtain ⟨rfl, rfl, rfl, -⟩ := hs
      exact ⟨['.', '.'], r, Or.inr (Or.inr rfl), hr, hne, hat⟩
  | _ :: _ :: _ :: _, hs => simp at hs

/-- A text of one character fails where it starts. -/
theorem eval_text_singleton_fail {ch : Char}
    (h : (Parser.text [ch] : Parser N R Text).eval call source c = .fail f) : f.At c [ch] := by
  obtain ⟨u, x, s', r, hs, -, -, hat⟩ := eval_text_fail h
  cases u with
  | nil =>
      rw [List.nil_append, List.cons.injEq] at hs
      rw [Cursor.skip_nil, ← hs.1] at hat
      exact hat
  | cons y u => simp at hs

/-- The signs fail at the start, the dots where they break off. -/
theorem eval_sign_fail (h : (sign : Parser N R Text).eval call source c = .fail f) :
    ∃ u r, Dots u ∧ c.rest = u ++ r ∧ r.head? ≠ some '.' ∧ f.At (c.skip u) (wordHints u) := by
  obtain ⟨g, hdots, -⟩ := Parser.exists_fail_of_eval_choice h (.text "...".toList) (by simp)
  obtain ⟨u, r, hu, hr, hne, hat⟩ := eval_dots_fail hdots
  refine ⟨u, r, hu, hr, hne, ?_⟩
  have hfirst : ∀ ch ∈ ['+', '-'], ∀ g : Failure, g.At c [ch] →
      g.UpTo (c.skip u) (wordHints u) := by
    intro ch hch g hg
    by_cases hnil : u = []
    · subst hnil
      rw [Cursor.skip_nil]
      refine (hg.mono fun x hx => ?_).upTo
      rw [List.mem_singleton.mp hx, wordHints, if_pos rfl]
      simp only [List.mem_cons, List.not_mem_nil, or_false] at hch
      rcases hch with rfl | rfl <;> decide
    · exact hg.upTo_of_pos_lt (c.pos_lt_skip hnil)
  have hlast : ∀ g, (Parser.text "...".toList : Parser N R Text).eval call source c = .fail g →
      g.At (c.skip u) (wordHints u) := by
    intro g hg
    rw [hdots] at hg
    cases hg
    exact hat.mono (dots_subset_wordHints u)
  refine Parser.at_of_eval_choice h (fun p hp g hg => ?_) ⟨.text "...".toList, by simp, hlast⟩
  simp only [List.mem_cons, List.not_mem_nil, or_false] at hp
  rcases hp with rfl | rfl | rfl
  · exact hfirst '+' (by simp) g (eval_text_singleton_fail hg)
  · exact hfirst '-' (by simp) g (eval_text_singleton_fail hg)
  · exact (hlast g hg).upTo

/-- A character of a class and then any number of others. -/
theorem at_of_eval_satisfy_bind {description : String} {test : Char → Bool} {α : Type}
    {p : Char → Parser N R α} (hp : ∀ ch d, (p ch).eval call source d ≠ .fail f)
    (h : ((Parser.satisfy description test).bind p).eval call source c = .fail f) : f.At c [] := by
  rcases Parser.eval_bind_fail h with hchar | ⟨ch, d, -, hrest⟩
  · exact at_of_readChar hchar (Expectation.within_ofDescription _)
  · exact absurd hrest (hp ch d)

theorem eval_map_many_satisfy_ne_fail {description : String} {test : Char → Bool} {α : Type}
    (g : List Char → α) :
    ((Parser.satisfy description test).many.map g : Parser N R α).eval call source c ≠ .fail f := by
  intro h
  have hmany := Parser.eval_map_fail h
  rw [eval_many_satisfy] at hmany
  cases hmany

/-- An identifier fails at its start, or after the dots with which it begins. -/
theorem eval_identifier_fail (h : (identifier : Parser N R Text).eval call source c = .fail f) :
    ∃ u r, Dots u ∧ c.rest = u ++ r ∧ r.head? ≠ some '.' ∧ f.At (c.skip u) (wordHints u) := by
  obtain ⟨g₁, g₂, hnormal, hpeculiar, rfl⟩ := Parser.eval_orElse_fail h
  have hletter : g₁.At c [] :=
    at_of_eval_satisfy_bind (fun _ _ => eval_map_many_satisfy_ne_fail _) hnormal
  rcases Parser.eval_bind_fail hpeculiar with hsign | ⟨s, d, -, hmany⟩
  · obtain ⟨u, r, hu, hr, hne, hat⟩ := eval_sign_fail hsign
    exact ⟨u, r, hu, hr, hne, Failure.At.furthest_right
      (hletter.upTo_of_reaches (Cursor.reaches_skip hr)) hat⟩
  · exact absurd hmany (eval_map_many_satisfy_ne_fail _)

theorem eval_digits_fail (h : (digits : Parser N R Text).eval call source c = .fail f) :
    f.At c [] := by
  exact Parser.at_of_eval_describe h (Cursor.Reaches.refl c) fun g hg =>
    at_of_eval_satisfy_bind (fun _ _ => eval_map_many_satisfy_ne_fail _) hg

end

/-! ## Tokens of the grammar -/

namespace Grammar

variable {source : String} {k : Nat} {c : Cursor} {f : Failure} {α β : Type}

/-- Trivia never fail. -/
theorem eval_skip_ne_fail : skip.eval (rules.call source k) source c ≠ .fail f := by
  intro h
  cases k with
  | zero => cases h
  | succ k =>
      exact Parser.eval_many_ne_fail (rules.call_reaches source k) triviaItem c f
        (Parser.eval_map_fail h)

theorem eval_trivia_ne_fail : trivia.eval (rules.call source k) source c ≠ .fail f := fun h =>
  Parser.eval_many_ne_fail (rules.call_reaches source k) triviaItem c f (Parser.eval_map_fail h)

theorem eval_lexeme_fail {p : PieParser α}
    (h : (lexeme skip p).eval (rules.call source k) source c = .fail f) :
    p.eval (rules.call source k) source c = .fail f := by
  rcases Parser.eval_followedBy_fail h with hp | ⟨x, d, -, hskip⟩
  · exact Parser.eval_located_fail hp
  · exact absurd hskip eval_skip_ne_fail

/-- No identifier comes next, or the one that does is rejected where it starts. -/
theorem eval_keywordTable_fail {table : List (Text × β)}
    (h : (keywordTable skip table).eval (rules.call source k) source c = .fail f) :
    (identifier : PieParser Text).eval (rules.call source k) source c = .fail f ∨
      (∃ name, wordPrefix c.rest = some name ∧ table.lookup name = none) ∧ f.At c [] := by
  rcases Parser.eval_refine_fail h with htoken | ⟨token, d, e, htoken, hj, rfl⟩
  · exact Or.inl (eval_lexeme_fail htoken)
  · obtain ⟨hword, -, -⟩ := eval_lexeme_identifier_ok htoken
    cases hlookup : table.lookup token.value with
    | some entry => rw [hlookup] at hj; cases hj
    | none =>
        rw [hlookup] at hj
        cases hj
        exact Or.inr ⟨⟨token.value, hword, hlookup⟩, rfl, Expectation.within_generic⟩

/-- A bracket fails at its opening parenthesis, in what is between, or at its closing one. -/
theorem eval_parens_fail {p : PieParser α}
    (h : (parens skip p).eval (rules.call source k) source c = .fail f) :
    (c.rest.head? ≠ some '(' ∧ f.At c ['(']) ∨
      ∃ r c₁, c.rest = '(' :: r ∧ skip.eval (rules.call source k) source (c.skip ['(']) = .ok () c₁ ∧
        (p.eval (rules.call source k) source c₁ = .fail f ∨
          ∃ a d, p.eval (rules.call source k) source c₁ = .ok a d ∧ f.At d [')']) := by
  rcases Parser.eval_followedBy_fail h with hbody | ⟨a, d, hbody, hclose⟩
  · rcases Parser.eval_andThen_fail hbody with hopen | ⟨x, c₁, hopen, hp⟩
    · exact Or.inl (eval_char_fail (eval_lexeme_fail hopen))
    · obtain ⟨⟨r, hr⟩, -, hskip⟩ := eval_lexeme_char_ok hopen
      exact Or.inr ⟨r, c₁, hr, hskip, Or.inl hp⟩
  · obtain ⟨x, c₁, hopen, hp⟩ := Parser.eval_andThen_ok hbody
    obtain ⟨⟨r, hr⟩, -, hskip⟩ := eval_lexeme_char_ok hopen
    exact Or.inr ⟨r, c₁, hr, hskip, Or.inr ⟨a, d, hp, (eval_char_fail (eval_lexeme_fail hclose)).2⟩⟩

end Grammar

end PieSyntax
