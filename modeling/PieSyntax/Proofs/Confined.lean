import PieSyntax.Proofs.Finish
import PieSyntax.Proofs.Failing

/-!
# What breaks off a run

A run is broken off by a repetition that stands still, by a ceiling that is too low, or by whoever
judges a value.  Repetitions of parsers that read a character whenever they succeed do not stand
still.  Trivia and the data within them are made of such repetitions and have no judges, so a ceiling
that is too low is all that can get in their way.

## Main results

* `Parser.Confined.many` — a repetition is broken off as its parser is.
* `Grammar.confined_trivia` — trivia are broken off by the ceiling only.
* `Grammar.eval_skip_ok_or_tooDeep` — trivia are skipped, or they are nested too deeply.
-/

namespace PieSyntax

namespace Parser

variable {N : Type} {R : N → Type} {α β : Type}

/-- Whatever breaks off the parser is among `W`. -/
def Confined (call : (n : N) → Cursor → Outcome (R n)) (source : String) (W : Interruption → Prop)
    (p : Parser N R α) : Prop :=
  ∀ c why, p.eval call source c = .interrupted why → W why

variable {call : (n : N) → Cursor → Outcome (R n)} {source : String} {W : Interruption → Prop}
variable {p q : Parser N R α}

/-! ## Parsers without calls -/

theorem confined_char (ch : Char) : Confined call source W (.char ch) :=
  fun c why h => absurd h (readChar_ne_interrupted _ _ c why)

theorem confined_text (s : Text) : Confined call source W (.text s) :=
  fun c why h => absurd h (eval_text_ne_interrupted s c why)

theorem confined_spanning (test : Char → Bool) : Confined call source W (.spanning test) :=
  fun _ _ h => by cases h

theorem confined_eof : Confined call source W .eof :=
  fun c why h => absurd h (eval_eof_ne_interrupted c why)

theorem confined_fail (e : Expectation) : Confined call source W (.fail e : Parser N R α) :=
  fun _ _ h => by cases h

theorem confined_identifier : Confined call source W identifier :=
  fun c why h => absurd h (eval_identifier_ne_interrupted c why)

theorem confined_digits : Confined call source W digits :=
  fun c why h => absurd h (eval_digits_ne_interrupted c why)

/-! ## One part after the other -/

theorem Confined.bind {next : α → Parser N R β} (h : Confined call source W p)
    (hnext : ∀ a, Confined call source W (next a)) : Confined call source W (p.bind next) := by
  intro c why hwhy
  rw [Parser.eval] at hwhy
  rcases Outcome.andThen_eq_interrupted hwhy with hp | ⟨a, d, -, hrest⟩
  · exact h c why hp
  · exact hnext a d why hrest

/-- A function that is applied to what was read breaks off nothing. -/
theorem Confined.map (f : α → β) (h : Confined call source W p) :
    Confined call source W (p.map f) := by
  intro c why hwhy
  rw [Parser.map, Parser.eval] at hwhy
  rcases Outcome.andThen_eq_interrupted hwhy with hp | ⟨a, d, -, hrest⟩
  · exact h c why hp
  · cases hrest

theorem Confined.located (h : Confined call source W p) : Confined call source W p.located := by
  intro c why hwhy
  rw [Parser.eval] at hwhy
  rcases Outcome.andThen_eq_interrupted hwhy with hp | ⟨a, d, -, hrest⟩
  · exact h c why hp
  · cases hrest

theorem Confined.named (name : String) (h : Confined call source W p) :
    Confined call source W (.named name p) := h

theorem Confined.andThen {r : Parser N R β} (h : Confined call source W p)
    (hr : Confined call source W r) : Confined call source W (p.andThen r) :=
  Confined.named _ (h.bind fun _ => hr)

theorem Confined.followedBy {r : Parser N R β} (h : Confined call source W p)
    (hr : Confined call source W r) : Confined call source W (p.followedBy r) :=
  Confined.named _ (h.bind fun _ => hr.map _)

/-! ## Choices -/

theorem Confined.orElse (hp : Confined call source W p) (hq : Confined call source W q) :
    Confined call source W (p.orElse q) := by
  intro c why hwhy
  rw [eval_orElse] at hwhy
  rcases Outcome.orElse_eq_interrupted hwhy with h | ⟨-, h⟩
  · exact hp c why h
  · exact hq c why h

theorem Confined.describe (description : String) (h : Confined call source W p) :
    Confined call source W (p.describe description) :=
  Confined.named _ (h.orElse (confined_fail _))

theorem Confined.choice {ps : List (Parser N R α)} (h : ∀ p ∈ ps, Confined call source W p) :
    Confined call source W (choice ps) :=
  choice_induction call source (motive := fun p => Confined call source W p)
    (fun _ _ heq hp c => heq ▸ hp c) (confined_fail _) (fun _ _ => Confined.orElse) h

/-! ## Repetitions -/

/-- A repetition of a parser that reads a character whenever it succeeds does not stand still. -/
theorem Confined.many (hcall : ∀ nt c, (call nt c).AheadOf c) (h : Confined call source W p)
    (hp : Consumes call source p) : Confined call source W p.many := by
  intro c why
  refine many_induction hcall (motive := fun _ o => o = .interrupted why → W why)
    ?done ?broken ?still ?round c
  case done => rintro c f - ⟨⟩
  case broken => rintro c why' heval ⟨⟩; exact h c why heval
  case still =>
    intro c d a heval hd _
    exact absurd hd ((reaches_of_eval hcall heval).offset_ne (hp c a d heval))
  case round =>
    intro c d a o _ _ ih hwhy
    rcases Outcome.andThen_eq_interrupted hwhy with hrest | ⟨as, e, -, hdone⟩
    · exact ih hrest
    · cases hdone

end Parser

/-! ## Trivia -/

namespace Grammar

open PieSyntax.Parser

variable {source : String} {k : Nat} {W : Interruption → Prop}

theorem confined_lexeme {α : Type} {p : PieParser α}
    (hskip : Confined (rules.call source k) source W skip)
    (h : Confined (rules.call source k) source W p) :
    Confined (rules.call source k) source W (lexeme skip p) :=
  h.located.followedBy hskip

theorem confined_parens {α : Type} {p : PieParser α}
    (hskip : Confined (rules.call source k) source W skip)
    (h : Confined (rules.call source k) source W p) :
    Confined (rules.call source k) source W (parens skip p) :=
  ((confined_lexeme hskip (confined_char '(')).andThen h).followedBy
    (confined_lexeme hskip (confined_char ')'))

theorem consumes_anyDatum : Consumes (rules.call source k) source anyDatum := by
  intro c u d h
  obtain ⟨x, hx, -⟩ := eval_map_ok h
  exact consumes_lexeme (rules.call_reaches source k) consumes_datumItem c x d hx

/-- A datum that is called reads a character. -/
theorem consumes_innerDatum : Consumes (rules.call source k) source innerDatum := by
  intro c u d h
  cases k with
  | zero => cases h
  | succ k => exact consumes_anyDatum c u d h

theorem consumes_triviaItem : Consumes (rules.call source k) source triviaItem := by
  have hcall := rules.call_reaches source k
  intro c u d h
  obtain ⟨p, hp, hok⟩ := eval_choice_ok h
  rcases List.mem_append.mp hp with hp | hp
  · obtain ⟨ch, -, rfl⟩ := List.mem_map.mp hp
    obtain ⟨ch', hch, -⟩ := eval_map_ok hok
    exact consumes_char ch c ch' d hch
  · simp only [List.mem_cons, List.not_mem_nil, or_false] at hp
    rcases hp with rfl | rfl
    · obtain ⟨s, c₁, hopen, hend⟩ := eval_andThen_ok (eval_describe_ok hok)
      obtain ⟨ch, c₂, hsemicolon, hline⟩ := eval_andThen_ok hopen
      have hlt := consumes_char ';' c ch c₂ hsemicolon
      have hle := length_le_of_eval hcall hline
      have hle' := length_le_of_eval hcall hend
      omega
    · obtain ⟨u', hcomment, -⟩ := eval_map_ok hok
      obtain ⟨x, c₁, hmark, hdatum⟩ := eval_andThen_ok hcomment
      have hlt := consumes_lexeme hcall (consumes_text (by decide)) c x c₁ hmark
      have hle := length_le_of_eval hcall hdatum
      omega

/-- What a ceiling that is too low does, and nothing else. -/
abbrev OnlyTooDeep (why : Interruption) : Prop := why = .tooDeep

theorem confined_anyDatum (hskip : Confined (rules.call source k) source OnlyTooDeep skip)
    (hinner : Confined (rules.call source k) source OnlyTooDeep innerDatum) :
    Confined (rules.call source k) source OnlyTooDeep anyDatum := by
  have hdata := hinner.many (rules.call_reaches source k) consumes_innerDatum
  exact (confined_lexeme hskip ((((confined_parens hskip hdata).map _).orElse
    (confined_identifier.map _)).orElse (confined_digits.map _))).map _

theorem confined_spacing (hskip : Confined (rules.call source k) source OnlyTooDeep skip)
    (hinner : Confined (rules.call source k) source OnlyTooDeep innerDatum) :
    Confined (rules.call source k) source OnlyTooDeep trivia := by
  refine Confined.map _ (Confined.many (rules.call_reaches source k) ?_ consumes_triviaItem)
  refine Confined.choice ?_
  intro p hp
  rcases List.mem_append.mp hp with hp | hp
  · obtain ⟨ch, -, rfl⟩ := List.mem_map.mp hp
    exact (confined_char ch).map _
  · simp only [List.mem_cons, List.not_mem_nil, or_false] at hp
    rcases hp with rfl | rfl
    · exact ((((confined_char ';').andThen (confined_spanning _)).andThen
        (((confined_char '\n').map _).orElse confined_eof)).describe _)
    · exact ((confined_lexeme hskip (confined_text _)).andThen
        (confined_anyDatum hskip hinner)).map _

/-- Trivia and data that are called are broken off by the ceiling only. -/
theorem confined_calls (source : String) (k : Nat) :
    Confined (rules.call source k) source OnlyTooDeep skip ∧
      Confined (rules.call source k) source OnlyTooDeep innerDatum := by
  induction k with
  | zero =>
      constructor
      · intro c why h
        cases h
        rfl
      · intro c why h
        cases h
        rfl
  | succ k ih =>
      obtain ⟨hskip, hinner⟩ := ih
      exact ⟨confined_spacing hskip hinner, confined_anyDatum hskip hinner⟩

theorem confined_trivia : Confined (rules.call source k) source OnlyTooDeep trivia := by
  obtain ⟨hskip, hinner⟩ := confined_calls source k
  exact confined_spacing hskip hinner

/-- Trivia are skipped, or they are nested too deeply. -/
theorem eval_skip_ok_or_tooDeep (source : String) (k : Nat) (c : Cursor) :
    (∃ d, skip.eval (rules.call source k) source c = .ok () d) ∨
      skip.eval (rules.call source k) source c = .interrupted .tooDeep := by
  cases h : skip.eval (rules.call source k) source c with
  | ok u d => exact Or.inl ⟨d, rfl⟩
  | fail f => exact absurd h eval_skip_ne_fail
  | interrupted why =>
      obtain rfl := (confined_calls source k).1 c why h
      exact Or.inr rfl

/-- Trivia are skipped to some place, if the run is not cut off. -/
theorem exists_returns_skip (source : String) (k : Nat) (c : Cursor) :
    ∃ d, Returns (rules.call source k) source (.empty True) skip c () d := by
  rcases eval_skip_ok_or_tooDeep source k c with ⟨d, hok⟩ | hdeep
  · refine ⟨d, Returns.of_eval fun v hv => ?_⟩
    rw [show v = [] from hv, Cursor.before_nil, Cursor.before_nil]
    exact hok
  · refine ⟨c, Or.inl ⟨trivial, fun v hv => ?_⟩⟩
    rw [show v = [] from hv, Cursor.before_nil]
    exact hdeep

end Grammar

end PieSyntax
