import PieSyntax.Proofs.Trail

/-!
# Runs that fail at a given place

A run *breaks* at a place if it fails there, unless it is cut off.  For a sequence it is enough that
one part breaks and those before it return; for a choice, that one alternative breaks and the others
fail no later.

At the end of a text nothing fails any later, so there every alternative that fails will do.

## Main results

* `Parser.Breaks.bind_right`, `Parser.Breaks.choice`, … — one for each way of building a parser.
* `Parser.Declines.breaksBy` — at the end of a text no failure lies further on.
-/

namespace PieSyntax

namespace Failure

variable {f g : Failure} {q : Position}

theorem pos_furthest_left (hf : f.pos = q) (hg : g.pos ≤ q) : (f.furthest g).pos = q := by
  rcases hg with hlt | heq
  · rw [furthest_of_gt (by rw [hf]; exact hlt), hf]
  · rw [furthest_of_pos_eq (hf.trans heq.symm)]
    exact hf

theorem pos_furthest_right (hf : f.pos ≤ q) (hg : g.pos = q) : (f.furthest g).pos = q := by
  rw [furthest_comm]
  exact pos_furthest_left hg hf

theorem pos_furthest_le (hf : f.pos ≤ q) (hg : g.pos ≤ q) : (f.furthest g).pos ≤ q := by
  rcases Outcome.furthest_pos_eq_or f g with heq | heq
  · rw [heq]
    exact hf
  · rw [heq]
    exact hg

end Failure

namespace Parser

variable {N : Type} {R : N → Type} {call : (n : N) → Cursor → Outcome (R n)} {source : String}
variable {α β : Type} {p r : Parser N R α} {c d e : Cursor} {q : Position} {a : α}

/-- Unless it is cut off, the run fails at the place. -/
def Breaks (call : (n : N) → Cursor → Outcome (R n)) (source : String) (p : Parser N R α)
    (c : Cursor) (q : Position) : Prop :=
  p.eval call source c = .interrupted .tooDeep ∨ ∃ f, p.eval call source c = .fail f ∧ f.pos = q

/-- Unless it is cut off, the run fails at the place or before. -/
def BreaksBy (call : (n : N) → Cursor → Outcome (R n)) (source : String) (p : Parser N R α)
    (c : Cursor) (q : Position) : Prop :=
  p.eval call source c = .interrupted .tooDeep ∨ ∃ f, p.eval call source c = .fail f ∧ f.pos ≤ q

/-- With the empty tail alone, to decline is to fail or to be cut off. -/
theorem Declines.of_eval_or
    (h : p.eval call source c = .interrupted .tooDeep ∨ ∃ f, p.eval call source c = .fail f) :
    Declines call source (.empty True) p c := by
  rcases h with hdeep | ⟨f, hf⟩
  · refine Or.inl ⟨trivial, fun v hv => ?_⟩
    rw [show v = [] from hv, Cursor.before_nil]
    exact hdeep
  · refine Or.inr fun v hv => ⟨f, ?_⟩
    rw [show v = [] from hv, Cursor.before_nil]
    exact hf

theorem Breaks.declines (h : Breaks call source p c q) :
    Declines call source (.empty True) p c :=
  Declines.of_eval_or (h.imp_right fun ⟨f, hf, _⟩ => ⟨f, hf⟩)

theorem Declines.eval (h : Declines call source (.empty True) p c) :
    p.eval call source c = .interrupted .tooDeep ∨ ∃ f, p.eval call source c = .fail f := by
  rcases h with ⟨-, h⟩ | h
  · exact Or.inl (by simpa using h [] rfl)
  · exact Or.inr (by simpa using h [] rfl)

/-! ## Sequences -/

theorem Breaks.bind {next : α → Parser N R β} (h : Breaks call source p c q) :
    Breaks call source (p.bind next) c q := by
  rcases h with hdeep | ⟨f, hf, hpos⟩
  · exact Or.inl (by rw [Parser.eval, hdeep, Outcome.andThen_interrupted])
  · exact Or.inr ⟨f, by rw [Parser.eval, hf, Outcome.andThen_fail], hpos⟩

/-- After a parser that returns, the next one decides. -/
theorem Breaks.bind_right {next : α → Parser N R β}
    (h : Returns call source (.empty True) p c a d) (hnext : Breaks call source (next a) d q) :
    Breaks call source (p.bind next) c q := by
  rcases h.eval with ⟨-, hdeep⟩ | hok
  · exact Or.inl (by rw [Parser.eval, hdeep, Outcome.andThen_interrupted])
  · rw [Breaks, Parser.eval, hok, Outcome.andThen_ok]
    exact hnext

theorem Breaks.refine {judge : α → Verdict β} (h : Breaks call source p c q) :
    Breaks call source (p.refine judge) c q := by
  rcases h with hdeep | ⟨f, hf, hpos⟩
  · exact Or.inl (by rw [Parser.eval, hdeep, Outcome.andThen_interrupted])
  · exact Or.inr ⟨f, by rw [Parser.eval, hf, Outcome.andThen_fail], hpos⟩

theorem Breaks.map (g : α → β) (h : Breaks call source p c q) :
    Breaks call source (p.map g) c q :=
  Breaks.refine h

theorem Breaks.located (h : Breaks call source p c q) : Breaks call source p.located c q := by
  rcases h with hdeep | ⟨f, hf, hpos⟩
  · exact Or.inl (by rw [Parser.eval, hdeep, Outcome.andThen_interrupted])
  · exact Or.inr ⟨f, by rw [Parser.eval, hf, Outcome.andThen_fail], hpos⟩

theorem Breaks.named (name : String) (h : Breaks call source p c q) :
    Breaks call source (.named name p) c q := h

theorem Breaks.andThen {s : Parser N R β} (h : Breaks call source p c q) :
    Breaks call source (p.andThen s) c q :=
  Breaks.named _ (Breaks.bind h)

theorem Breaks.andThen_right {s : Parser N R β} (h : Returns call source (.empty True) p c a d)
    (hs : Breaks call source s d q) : Breaks call source (p.andThen s) c q :=
  Breaks.named _ (Breaks.bind_right h hs)

theorem Breaks.followedBy {s : Parser N R β} (h : Breaks call source p c q) :
    Breaks call source (p.followedBy s) c q :=
  Breaks.named _ (Breaks.bind h)

theorem Breaks.followedBy_right {s : Parser N R β}
    (h : Returns call source (.empty True) p c a d) (hs : Breaks call source s d q) :
    Breaks call source (p.followedBy s) c q :=
  Breaks.named _ (Breaks.bind_right h (Breaks.map _ hs))

/-! ## Choices -/

theorem Breaks.orElse (h : Breaks call source p c q) (hr : BreaksBy call source r c q) :
    Breaks call source (p.orElse r) c q := by
  rcases h with hdeep | ⟨f, hf, hpos⟩
  · exact Or.inl (by rw [eval_orElse, hdeep]; rfl)
  · rcases hr with hdeep | ⟨g, hg, hle⟩
    · exact Or.inl (by rw [eval_orElse, hf, hdeep]; rfl)
    · exact Or.inr ⟨f.furthest g, by rw [eval_orElse, hf, hg]; rfl,
        Failure.pos_furthest_left hpos hle⟩

theorem Breaks.orElse_right (h : BreaksBy call source p c q) (hr : Breaks call source r c q) :
    Breaks call source (p.orElse r) c q := by
  rcases h with hdeep | ⟨f, hf, hle⟩
  · exact Or.inl (by rw [eval_orElse, hdeep]; rfl)
  · rcases hr with hdeep | ⟨g, hg, hpos⟩
    · exact Or.inl (by rw [eval_orElse, hf, hdeep]; rfl)
    · exact Or.inr ⟨f.furthest g, by rw [eval_orElse, hf, hg]; rfl,
        Failure.pos_furthest_right hle hpos⟩

theorem BreaksBy.orElse (h : BreaksBy call source p c q) (hr : BreaksBy call source r c q) :
    BreaksBy call source (p.orElse r) c q := by
  rcases h with hdeep | ⟨f, hf, hle⟩
  · exact Or.inl (by rw [eval_orElse, hdeep]; rfl)
  · rcases hr with hdeep | ⟨g, hg, hle'⟩
    · exact Or.inl (by rw [eval_orElse, hf, hdeep]; rfl)
    · exact Or.inr ⟨f.furthest g, by rw [eval_orElse, hf, hg]; rfl,
        Failure.pos_furthest_le hle hle'⟩

/-- A choice of which one alternative breaks at the place and none later. -/
theorem Breaks.choice {ps : List (Parser N R α)} (hall : ∀ p ∈ ps, BreaksBy call source p c q)
    (hsome : ∃ p ∈ ps, Breaks call source p c q) : Breaks call source (choice ps) c q :=
  choice_of_mem call source (fun p => BreaksBy call source p c q)
    (fun p => Breaks call source p c q) (fun _ _ heq hp => by rwa [Breaks, ← heq])
    (fun _ _ => BreaksBy.orElse) (fun _ _ => Breaks.orElse) (fun _ _ => Breaks.orElse_right)
    hall hsome

theorem Breaks.describe (description : String) (h : Breaks call source p c q) (hq : c.pos ≤ q) :
    Breaks call source (p.describe description) c q :=
  Breaks.named _ (Breaks.orElse h (Or.inr ⟨_, rfl, hq⟩))

/-- Parsers that are alike break alike. -/
theorem RunsAs.breaks {s : Parser N R β} (hlike : RunsAs p s) (h : Breaks call source s c q) :
    Breaks call source p c q := by
  rcases h with hdeep | ⟨f, hf, hpos⟩
  · exact Or.inl (hlike.symm.eval_eq_interrupted hdeep)
  · exact Or.inr ⟨f, hlike.symm.eval_eq_fail hf, hpos⟩

theorem RunsAs.declines {s : Parser N R β} (hlike : RunsAs p s)
    (h : Declines call source (.empty True) s c) : Declines call source (.empty True) p c := by
  rcases h.eval with hdeep | ⟨f, hf⟩
  · exact (hlike.breaks (q := c.pos) (Or.inl hdeep)).declines
  · exact (hlike.breaks (Or.inr ⟨f, hf, rfl⟩)).declines

/-! ## At the end of a text -/

section

variable (hcall : ∀ n c, (call n c).AheadOf c)

include hcall

/-- A failure lies no further than the end of the text. -/
theorem Declines.breaksBy (h : Declines call source (.empty True) p c) (hreach : c.Reaches e)
    (he : e.rest = []) : BreaksBy call source p c e.pos := by
  rcases h.eval with hdeep | ⟨f, hf⟩
  · exact Or.inl hdeep
  · have hahead := eval_reaches hcall source p c
    rw [hf] at hahead
    obtain ⟨d, ⟨u, hu⟩, hpos⟩ := hahead
    have hend : (c.skip u).Reaches e := hreach.of_skip hu.rest (by rw [he, List.append_nil])
    rw [← hu.eq_skip] at hend
    refine Or.inr ⟨f, hf, ?_⟩
    rw [hpos]
    exact hend.pos_le

/-- Where nothing is left, a failure lies there. -/
theorem Declines.breaks (h : Declines call source (.empty True) p c) (hc : c.rest = []) :
    Breaks call source p c c.pos := by
  rcases h.eval with hdeep | ⟨f, hf⟩
  · exact Or.inl hdeep
  · have hahead := eval_reaches hcall source p c
    rw [hf] at hahead
    obtain ⟨d, hreach, hpos⟩ := hahead
    exact Or.inr ⟨f, hf, by rw [hpos, hreach.eq_of_nil hc]⟩

end

/-! ## Repetitions up to a stop -/

/-- A repetition breaks where its item does, if the stop is not there. -/
theorem Breaks.manyTill_nil {stop : Parser N R β} (hcall : ∀ n c, (call n c).AheadOf c)
    (hstop : BreaksBy call source stop c q) (h : Breaks call source p c q) :
    Breaks call source (p.manyTill stop) c q := by
  rcases hstop with hdeep | ⟨f, hf, hle⟩
  · exact Or.inl (eval_manyTill_of_interrupted hcall hdeep)
  · rcases h with hdeep | ⟨g, hg, hpos⟩
    · exact Or.inl (eval_manyTill_of_item_interrupted hcall hf hdeep)
    · have hfail : (p.manyTill stop).eval call source c = .fail (f.furthest g) := by
        rw [eval_manyTill hcall, hf, hg]
      exact Or.inr ⟨f.furthest g, hfail, Failure.pos_furthest_right hle hpos⟩

theorem Breaks.manyTill_cons {stop : Parser N R β} (hcall : ∀ n c, (call n c).AheadOf c)
    (hstop : BreaksBy call source stop c q) (h : Returns call source (.empty True) p c a d)
    (hne : d.offset ≠ c.offset) (hmany : Breaks call source (p.manyTill stop) d q) :
    Breaks call source (p.manyTill stop) c q := by
  rcases hstop with hdeep | ⟨f, hf, -⟩
  · exact Or.inl (eval_manyTill_of_interrupted hcall hdeep)
  · rcases h.eval with ⟨-, hdeep⟩ | hok
    · exact Or.inl (eval_manyTill_of_item_interrupted hcall hf hdeep)
    · rw [Breaks, eval_manyTill_next hcall hf hok hne]
      rcases hmany with hdeep | ⟨g, hg, hpos⟩
      · exact Or.inl (by rw [hdeep, Outcome.andThen_interrupted])
      · exact Or.inr ⟨g, by rw [hg, Outcome.andThen_fail], hpos⟩

/-! ## Tokens and brackets -/

variable {skip : Parser N R Unit}

theorem Breaks.lexeme (h : Breaks call source p c q) :
    Breaks call source (PieSyntax.lexeme skip p) c q :=
  Breaks.followedBy (Breaks.located h)

/-- A bracket of which the inside breaks. -/
theorem Breaks.parens {t : Text} (hopen : c.rest = '(' :: t)
    (hskip : Returns call source (.empty True) skip (c.skip ['(']) () d)
    (h : Breaks call source p d q) : Breaks call source (PieSyntax.parens skip p) c q :=
  Breaks.followedBy (Breaks.andThen_right
    (Reads.close (Reads.lexeme (Returns.char hopen)) hskip) h)

/-- A bracket that is not closed. -/
theorem Breaks.parens_close (hcall : ∀ n c, (call n c).AheadOf c) {t : Text}
    (hopen : c.rest = '(' :: t)
    (hskip : Returns call source (.empty True) skip (c.skip ['(']) () d)
    (h : Returns call source (.empty True) p d a e) (he : e.rest = []) :
    Breaks call source (PieSyntax.parens skip p) c e.pos := by
  refine Breaks.followedBy_right (Reads.andThen
    (Reads.close (Reads.lexeme (Returns.char hopen)) hskip) h) (Breaks.lexeme ?_)
  refine Declines.breaks hcall (Declines.char fun v hv hhead => ?_) he
  rw [he, show v = [] from hv] at hhead
  cases hhead

/-- A bracket of which the inside fails. -/
theorem Declines.parens_inside {t : Text} (hopen : c.rest = '(' :: t)
    (hskip : Returns call source (.empty True) skip (c.skip ['(']) () d)
    (h : Declines call source (.empty True) p d) :
    Declines call source (.empty True) (PieSyntax.parens skip p) c :=
  Declines.followedBy (Declines.named _ (Declines.bind_right
    (Reads.close (Reads.lexeme (Returns.char hopen)) hskip) h))

end Parser

end PieSyntax
