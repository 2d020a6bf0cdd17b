import PieSyntax.Proofs.Stands
import PieSyntax.Reading.Source

/-!
# A ceiling above the length of the text cuts nothing off

A nonterminal calls others only after it has read a character itself.  So the calls that are active
inside one another stand at different places of the text, and there are no more of them than the text
has characters.

`Finishes n p` says that `p` is not cut off with `n` characters left or fewer.  The parsers that a
rule consists of are gone through with this in mind: what is called after a character was read is
called with fewer characters left.

## Main results

* `Grammar.call_finishes` — a call is not cut off when the ceiling is above what is left to read.
* `Grammar.finishes_program`, `Grammar.finishes_expressionParser` — nor are the ways into the grammar.
-/

namespace PieSyntax

namespace Parser

variable {N : Type} {R : N → Type} {α β : Type}

section

variable (call : (n : N) → Cursor → Outcome (R n)) (source : String)

/-- With at most `n` characters left the run is not cut off. -/
def Finishes (n : Nat) (p : Parser N R α) : Prop :=
  ∀ c : Cursor, c.rest.length ≤ n → p.eval call source c ≠ .interrupted .tooDeep

/-- A success has read a character at least. -/
def Consumes (p : Parser N R α) : Prop :=
  ∀ c a d, p.eval call source c = .ok a d → d.rest.length < c.rest.length

end

variable {call : (n : N) → Cursor → Outcome (R n)} {source : String} {m n : Nat}
variable {p q : Parser N R α}

theorem Finishes.mono (h : Finishes call source n p) (hle : m ≤ n) : Finishes call source m p :=
  fun c hc => h c (Nat.le_trans hc hle)

/-! ## Parsers without calls -/

theorem readChar_ne_interrupted (test : Char → Bool) (e : Expectation) (c : Cursor)
    (why : Interruption) : c.readChar test e ≠ .interrupted why := by
  unfold Cursor.readChar
  split
  · exact fun h => by cases h
  · split <;> exact fun h => by cases h

theorem eval_text_ne_interrupted (s : Text) (c : Cursor) (why : Interruption) :
    (Parser.text s : Parser N R Text).eval call source c ≠ .interrupted why := by
  intro h
  by_cases hs : s <+: c.rest
  · rw [eval_text_of_isPrefix call source hs] at h
    cases h
  · obtain ⟨f, hf⟩ := eval_text_of_not_isPrefix call source hs
    rw [hf] at h
    cases h

theorem eval_eof_ne_interrupted (c : Cursor) (why : Interruption) :
    (Parser.eof : Parser N R Unit).eval call source c ≠ .interrupted why := by
  rw [Parser.eval]
  split <;> exact fun h => by cases h

theorem eval_identifier_ne_interrupted (c : Cursor) (why : Interruption) :
    (identifier : Parser N R Text).eval call source c ≠ .interrupted why := by
  intro h
  cases hw : wordPrefix c.rest with
  | none =>
      obtain ⟨f, hf⟩ := eval_identifier_of_none call source hw
      rw [hf] at h
      cases h
  | some name =>
      rw [eval_identifier_of_some call source hw] at h
      cases h

theorem eval_digits_ne_interrupted (c : Cursor) (why : Interruption) :
    (digits : Parser N R Text).eval call source c ≠ .interrupted why := by
  intro h
  cases hw : digitPrefix c.rest with
  | none =>
      obtain ⟨f, hf⟩ := eval_digits_of_none call source hw
      rw [hf] at h
      cases h
  | some run =>
      rw [eval_digits_of_some call source hw] at h
      cases h

theorem finishes_char (ch : Char) : Finishes call source n (.char ch) :=
  fun c _ => readChar_ne_interrupted _ _ c _

theorem finishes_text (s : Text) : Finishes call source n (.text s) :=
  fun c _ => eval_text_ne_interrupted s c _

theorem finishes_spanning (test : Char → Bool) : Finishes call source n (.spanning test) :=
  fun _ _ h => by cases h

theorem finishes_eof : Finishes call source n .eof :=
  fun c _ => eval_eof_ne_interrupted c _

theorem finishes_fail (e : Expectation) : Finishes call source n (.fail e : Parser N R α) :=
  fun _ _ h => by cases h

theorem finishes_identifier : Finishes call source n identifier :=
  fun c _ => eval_identifier_ne_interrupted c _

theorem finishes_digits : Finishes call source n digits :=
  fun c _ => eval_digits_ne_interrupted c _

/-! ## Consumption -/

theorem consumes_char (ch : Char) : Consumes call source (.char ch : Parser N R Char) := by
  intro c a d h
  obtain ⟨-, ⟨r, hr⟩, rfl⟩ := eval_char_ok call source h
  exact Cursor.length_skip_lt (u := [ch]) hr (List.cons_ne_nil _ _)

theorem consumes_text {s : Text} (hne : s ≠ []) :
    Consumes call source (.text s : Parser N R Text) := by
  intro c a d h
  by_cases hs : s <+: c.rest
  · rw [eval_text_of_isPrefix call source hs] at h
    cases h
    obtain ⟨r, hr⟩ := hs
    exact Cursor.length_skip_lt hr.symm hne
  · obtain ⟨f, hf⟩ := eval_text_of_not_isPrefix call source hs
    rw [hf] at h
    cases h

theorem consumes_identifier : Consumes call source (identifier : Parser N R Text) := by
  intro c a d h
  obtain ⟨hword, rfl⟩ := eval_identifier_ok h
  obtain ⟨r, hr, hname, -⟩ := wordPrefix_eq_some_iff.mp hword
  exact Cursor.length_skip_lt hr hname.ne_nil

theorem consumes_digits : Consumes call source (digits : Parser N R Text) := by
  intro c a d h
  obtain ⟨hrun, rfl⟩ := eval_digits_ok h
  obtain ⟨r, hr, hne, -⟩ := digitPrefix_eq_some_iff.mp hrun
  exact Cursor.length_skip_lt hr hne

theorem Consumes.located (h : Consumes call source p) : Consumes call source p.located := by
  intro c x d hx
  exact h c _ d (eval_located_ok hx).1

/-! ## One part after the other -/

theorem Finishes.refine {judge : α → Verdict β} (h : Finishes call source n p)
    (hjudge : ∀ a, judge a ≠ .interrupt .tooDeep) : Finishes call source n (p.refine judge) := by
  intro c hc hdeep
  rw [Parser.eval] at hdeep
  rcases Outcome.andThen_eq_interrupted hdeep with hp | ⟨a, d, -, hdeep⟩
  · exact h c hc hp
  · cases hj : judge a with
    | accept b => rw [hj] at hdeep; cases hdeep
    | reject e => rw [hj] at hdeep; cases hdeep
    | interrupt why =>
        rw [hj] at hdeep
        cases hdeep
        exact hjudge a hj

theorem Finishes.map (f : α → β) (h : Finishes call source n p) :
    Finishes call source n (p.map f) :=
  h.refine fun _ hj => by cases hj

theorem Finishes.guard {test : α → Bool} (e : Expectation) (h : Finishes call source n p) :
    Finishes call source n (p.guard test e) := by
  refine h.refine fun a hj => ?_
  split at hj <;> cases hj

theorem Finishes.located (h : Finishes call source n p) : Finishes call source n p.located := by
  intro c hc hdeep
  rw [Parser.eval] at hdeep
  rcases Outcome.andThen_eq_interrupted hdeep with hp | ⟨a, d, -, hok⟩
  · exact h c hc hp
  · cases hok

theorem Finishes.named (name : String) (h : Finishes call source n p) :
    Finishes call source n (.named name p) := h

/-- What comes after a success must finish with the characters that are left then. -/
theorem finishes_bind {next : α → Parser N R β} (h : Finishes call source n p)
    (hnext : ∀ c a d, c.rest.length ≤ n → p.eval call source c = .ok a d →
      (next a).eval call source d ≠ .interrupted .tooDeep) :
    Finishes call source n (p.bind next) := by
  intro c hc hdeep
  rw [Parser.eval] at hdeep
  rcases Outcome.andThen_eq_interrupted hdeep with hp | ⟨a, d, hp, hdeep⟩
  · exact h c hc hp
  · exact hnext c a d hc hp hdeep

/-- After a parser that has read a character fewer are left. -/
theorem Finishes.bind_of_consumes {next : α → Parser N R β} (h : Finishes call source n p)
    (hp : Consumes call source p) (hnext : ∀ a, ∀ m < n, Finishes call source m (next a)) :
    Finishes call source n (p.bind next) := by
  refine finishes_bind h fun c a d hc heval => ?_
  have hlt := hp c a d heval
  exact hnext a d.rest.length (by omega) d (Nat.le_refl _)

theorem Finishes.followedBy_of_consumes {r : Parser N R β} (h : Finishes call source n p)
    (hp : Consumes call source p) (hr : ∀ m < n, Finishes call source m r) :
    Finishes call source n (p.followedBy r) :=
  Finishes.named _ (h.bind_of_consumes hp fun _ m hm => (hr m hm).map _)

/-! ## Choices -/

theorem Finishes.orElse (hp : Finishes call source n p) (hq : Finishes call source n q) :
    Finishes call source n (p.orElse q) := by
  intro c hc hdeep
  rw [eval_orElse] at hdeep
  exact (Outcome.orElse_eq_interrupted hdeep).elim (hp c hc) fun h => hq c hc h.2

theorem Finishes.describe (description : String) (h : Finishes call source n p) :
    Finishes call source n (p.describe description) :=
  Finishes.named _ (h.orElse (finishes_fail _))

theorem Finishes.choice {ps : List (Parser N R α)} (h : ∀ p ∈ ps, Finishes call source n p) :
    Finishes call source n (choice ps) :=
  choice_induction call source (motive := fun p => Finishes call source n p)
    (fun _ _ heq hp c => heq ▸ hp c) (finishes_fail _) (fun _ _ => Finishes.orElse) h

/-! ## Parsers whose calls go forward -/

section

variable (hcall : ∀ nt c, (call nt c).AheadOf c)

include hcall

theorem length_le_of_eval {c d : Cursor} {a : α} (h : p.eval call source c = .ok a d) :
    d.rest.length ≤ c.rest.length :=
  (reaches_of_eval hcall h).length_le

theorem Finishes.bind {next : α → Parser N R β} (h : Finishes call source n p)
    (hnext : ∀ a, Finishes call source n (next a)) : Finishes call source n (p.bind next) := by
  refine finishes_bind h fun c a d hc heval => ?_
  have hle := length_le_of_eval hcall heval
  exact hnext a d (by omega)

theorem Finishes.andThen {r : Parser N R β} (h : Finishes call source n p)
    (hr : Finishes call source n r) : Finishes call source n (p.andThen r) :=
  Finishes.named _ (h.bind hcall fun _ => hr)

theorem Finishes.followedBy {r : Parser N R β} (h : Finishes call source n p)
    (hr : Finishes call source n r) : Finishes call source n (p.followedBy r) :=
  Finishes.named _ (h.bind hcall fun _ => hr.map _)

theorem Finishes.many (h : Finishes call source n p) : Finishes call source n p.many := by
  refine many_induction hcall
    (motive := fun c o => c.rest.length ≤ n → o ≠ .interrupted .tooDeep) ?done ?broken ?still ?round
  case done => rintro c f - - ⟨⟩
  case broken => rintro c why heval hc ⟨⟩; exact h c hc heval
  case still => rintro c d a - - - ⟨⟩
  case round =>
    intro c d a o heval _ ih hc hdeep
    have hle := length_le_of_eval hcall heval
    rcases Outcome.andThen_eq_interrupted hdeep with hrest | ⟨as, e, -, hok⟩
    · exact ih (by omega) hrest
    · cases hok

theorem Finishes.manyTill {stop : Parser N R β} (h : Finishes call source n p)
    (hstop : Finishes call source n stop) : Finishes call source n (p.manyTill stop) := by
  refine manyTill_induction hcall
    (motive := fun c o => c.rest.length ≤ n → o ≠ .interrupted .tooDeep)
    ?done ?unstopped ?stuck ?broken ?still ?round
  case done => rintro c d b - - ⟨⟩
  case unstopped => rintro c why hs hc ⟨⟩; exact hstop c hc hs
  case stuck => rintro c f g - - - ⟨⟩
  case broken => rintro c f why - heval hc ⟨⟩; exact h c hc heval
  case still => rintro c d f a - - - - ⟨⟩
  case round =>
    intro c d f a o _ heval _ ih hc hdeep
    have hle := length_le_of_eval hcall heval
    rcases Outcome.andThen_eq_interrupted hdeep with hrest | ⟨as, e, -, hok⟩
    · exact ih (by omega) hrest
    · cases hok

theorem Finishes.many1 (h : Finishes call source n p) : Finishes call source n p.many1 :=
  Finishes.named _ (h.bind hcall fun _ => (h.many hcall).map _)

end

end Parser

/-! ## Tokens -/

section

open PieSyntax.Parser

variable {N : Type} {R : N → Type} {call : (n : N) → Cursor → Outcome (R n)} {source : String}
variable {n : Nat} {α β : Type} {skip : Parser N R Unit} {p : Parser N R α}
variable (hcall : ∀ nt c, (call nt c).AheadOf c) (hskip : ∀ m < n, Finishes call source m skip)

include hskip

/-- A token reads a character before the trivia after it. -/
theorem finishes_lexeme (h : Finishes call source n p) (hp : Consumes call source p) :
    Finishes call source n (lexeme skip p) :=
  h.located.followedBy_of_consumes hp.located hskip

theorem finishes_keywordTable (table : List (Text × β)) :
    Finishes call source n (keywordTable skip table) := by
  refine (finishes_lexeme hskip finishes_identifier consumes_identifier).refine fun token hj => ?_
  split at hj <;> cases hj

theorem finishes_natural : Finishes call source n (natural skip) := by
  refine (finishes_lexeme hskip finishes_digits consumes_digits).refine fun token hj => ?_
  split at hj <;> cases hj

include hcall

omit hskip in
theorem consumes_lexeme (hp : Consumes call source p) : Consumes call source (lexeme skip p) := by
  intro c x d h
  obtain ⟨m, hvalue, -, hrest⟩ := eval_lexeme_ok h
  have hlt := hp c _ m hvalue
  have hle := length_le_of_eval hcall hrest
  omega

/-- Between parentheses there are fewer characters left. -/
theorem finishes_parens (h : ∀ m < n, Finishes call source m p) :
    Finishes call source n (parens skip p) := by
  have hopen : Finishes call source n (lexeme skip (.char '(')) :=
    finishes_lexeme hskip (finishes_char '(') (consumes_char '(')
  have hclose : Finishes call source n (lexeme skip (.char ')')) :=
    finishes_lexeme hskip (finishes_char ')') (consumes_char ')')
  have hbody : Finishes call source n ((lexeme skip (.char '(')).andThen p) :=
    Finishes.named _ (hopen.bind_of_consumes (consumes_lexeme hcall (consumes_char '('))
      fun _ => h)
  exact hbody.followedBy hcall hclose

theorem finishes_parensLocated (h : ∀ m < n, Finishes call source m p) :
    Finishes call source n (parensLocated skip p) := by
  have hopen : Finishes call source n (lexeme skip (.char '(')) :=
    finishes_lexeme hskip (finishes_char '(') (consumes_char '(')
  have hclose : Finishes call source n (lexeme skip (.char ')')) :=
    finishes_lexeme hskip (finishes_char ')') (consumes_char ')')
  refine Finishes.named _ (hopen.bind_of_consumes
    (consumes_lexeme hcall (consumes_char '(')) fun opening m hm =>
      (h m hm).bind hcall fun value => (hclose.mono (Nat.le_of_lt hm)).refine fun closing hj => ?_)
  split at hj <;> cases hj

end

/-! ## The grammar -/

namespace Grammar

open PieSyntax.Parser

variable {source : String} {k n : Nat}

/-- Calls finish with fewer than `n` characters left. -/
def CallsFinish (source : String) (k n : Nat) : Prop :=
  ∀ m < n, ∀ nt : Production,
    Finishes (rules.call source k) source m (.call nt : PieParser nt.Result)

theorem CallsFinish.mono {m : Nat} (h : CallsFinish source k n) (hle : m ≤ n) :
    CallsFinish source k m :=
  fun l hl => h l (by omega)

/-- A datum reads a character at least. -/
theorem consumes_datumItem : Consumes (rules.call source k) source
    (((ignored (parens skip innerDatum.many)).orElse (ignored identifier)).orElse
      (ignored digits)) := by
  have hcall := rules.call_reaches source k
  intro c u d hu
  rcases eval_orElse_ok hu with hu | hu
  · rcases eval_orElse_ok hu with hu | hu
    · obtain ⟨us, hus, -⟩ := eval_map_ok hu
      obtain ⟨c₁, e, ⟨r, hr⟩, hopen, hdata, -, hclose⟩ := eval_parens_ok hus
      have hlt := Cursor.length_skip_lt (u := ['(']) (r := r) hr (List.cons_ne_nil _ _)
      have hle := length_le_of_eval hcall hopen
      have hle' := length_le_of_eval hcall hdata
      have hle'' := length_le_of_eval hcall hclose
      have hdrop : (e.skip [')']).rest.length ≤ e.rest.length := by
        rw [Cursor.skip, List.length_drop]
        omega
      omega
    · obtain ⟨name, hname, -⟩ := eval_map_ok hu
      exact consumes_identifier c name d hname
  · obtain ⟨run, hrun, -⟩ := eval_map_ok hu
    exact consumes_digits c run d hrun

section

variable (h : CallsFinish source k n)

include h

theorem finishes_skip : ∀ m < n, Finishes (rules.call source k) source m skip :=
  fun m hm => h m hm .spacing

theorem finishes_innerDatum : ∀ m < n, Finishes (rules.call source k) source m innerDatum :=
  fun m hm => h m hm .datum

theorem finishes_innerExpr : ∀ m < n, Finishes (rules.call source k) source m innerExpr :=
  fun m hm => h m hm .expr

theorem finishes_anyDatum : Finishes (rules.call source k) source n anyDatum := by
  have hcall := rules.call_reaches source k
  have hgroup : Finishes (rules.call source k) source n (parens skip innerDatum.many) :=
    finishes_parens hcall (finishes_skip h) fun m hm => (finishes_innerDatum h m hm).many hcall
  have hitem : Finishes (rules.call source k) source n
      (((ignored (parens skip innerDatum.many)).orElse (ignored identifier)).orElse
        (ignored digits)) :=
    ((hgroup.map _).orElse (finishes_identifier.map _)).orElse (finishes_digits.map _)
  exact (finishes_lexeme (finishes_skip h) hitem consumes_datumItem).map _

omit h in
theorem finishes_lineComment :
    Finishes (rules.call source k) source n (lineComment : PieParser Unit) := by
  have hcall := rules.call_reaches source k
  refine Finishes.describe _ (Finishes.andThen hcall (Finishes.andThen hcall (finishes_char ';')
    (finishes_spanning _)) (Finishes.orElse ((finishes_char '\n').map _) finishes_eof))

theorem finishes_trivia : Finishes (rules.call source k) source n trivia := by
  have hcall := rules.call_reaches source k
  have hmark : Consumes (rules.call source k) source
      (.text "#;".toList : PieParser Text) := consumes_text (by decide)
  have hcomment : Finishes (rules.call source k) source n (datumComment skip innerDatum) := by
    refine Finishes.map _ (Finishes.named _ (Finishes.bind_of_consumes
      (finishes_lexeme (finishes_skip h) (finishes_text _) hmark)
      (consumes_lexeme hcall hmark) fun _ m hm => ?_))
    exact finishes_anyDatum (h.mono (Nat.le_of_lt hm))
  refine Finishes.map _ (Finishes.many hcall (Finishes.choice fun p hp => ?_))
  rcases List.mem_append.mp hp with hp | hp
  · obtain ⟨ch, -, rfl⟩ := List.mem_map.mp hp
    exact (finishes_char ch).map _
  · simp only [List.mem_cons, List.not_mem_nil, or_false] at hp
    rcases hp with rfl | rfl
    · exact finishes_lineComment
    · exact hcomment

theorem finishes_varName : Finishes (rules.call source k) source n varName :=
  ((finishes_lexeme (finishes_skip h) finishes_identifier consumes_identifier).guard _).describe _

theorem finishes_binders : Finishes (rules.call source k) source n binders := by
  have hcall := rules.call_reaches source k
  exact finishes_parens hcall (finishes_skip h) fun m hm =>
    ((finishes_varName (h.mono (Nat.le_of_lt hm))).map _).many1 hcall

/-- After a character was read, expressions can be called. -/
theorem finishes_pair {m : Nat} (hm : m < n) :
    Finishes (rules.call source k) source m (parens skip typedBinder) := by
  have hcall := rules.call_reaches source k
  have hbelow := h.mono (Nat.le_of_lt hm)
  refine finishes_parens hcall (finishes_skip hbelow) fun l hl => Finishes.named _ ?_
  exact (finishes_varName (hbelow.mono (Nat.le_of_lt hl))).bind hcall fun _ =>
    (finishes_innerExpr hbelow l hl).map _

theorem finishes_typedBinders : Finishes (rules.call source k) source n typedBinders := by
  have hcall := rules.call_reaches source k
  exact finishes_parens hcall (finishes_skip h) fun m hm => (finishes_pair h hm).many1 hcall

theorem finishes_arguments (a : Nat) {m : Nat} (hm : m < n) :
    Finishes (rules.call source k) source m (arguments a) := by
  have hcall := rules.call_reaches source k
  induction a with
  | zero => exact fun _ _ hdeep => by cases hdeep
  | succ a ih => exact (finishes_innerExpr h m hm).bind hcall fun _ => ih.map _

theorem finishes_headBody (head : Head) {m : Nat} (hm : m < n) :
    Finishes (rules.call source k) source m (headBody head) := by
  have hcall := rules.call_reaches source k
  have hbelow := h.mono (Nat.le_of_lt hm)
  have hexpr := finishes_innerExpr h m hm
  refine Finishes.named _ ?_
  cases head with
  | form f => exact (finishes_arguments h f.arity hm).map _
  | lambda => exact (finishes_binders hbelow).bind hcall fun _ => hexpr.map _
  | quantifier q => exact (finishes_typedBinders hbelow).bind hcall fun _ => hexpr.map _
  | arrow => exact hexpr.bind hcall fun _ => (hexpr.many1 hcall).map _

theorem finishes_commandBody (command : Command) {m : Nat} (hm : m < n) :
    Finishes (rules.call source k) source m (commandBody command) := by
  have hcall := rules.call_reaches source k
  have hname := finishes_varName (h.mono (Nat.le_of_lt hm))
  have hexpr := finishes_innerExpr h m hm
  refine Finishes.named _ ?_
  cases command with
  | claim => exact hname.bind hcall fun _ => hexpr.map _
  | define => exact hname.bind hcall fun _ => hexpr.map _
  | checkSame =>
      exact hexpr.bind hcall fun _ => hexpr.bind hcall fun _ => hexpr.map _

theorem finishes_application {m : Nat} (hm : m < n) :
    Finishes (rules.call source k) source m application := by
  have hcall := rules.call_reaches source k
  have hexpr := finishes_innerExpr h m hm
  exact Finishes.named _ (hexpr.bind hcall fun _ => (hexpr.many1 hcall).map _)

theorem finishes_compound : Finishes (rules.call source k) source n compound := by
  have hcall := rules.call_reaches source k
  refine finishes_parensLocated hcall (finishes_skip h) fun m hm =>
    Finishes.orElse ?_ (finishes_application h hm)
  exact (finishes_keywordTable (finishes_skip (h.mono (Nat.le_of_lt hm))) _).bind hcall fun _ =>
    finishes_headBody h _ hm

theorem finishes_expr : Finishes (rules.call source k) source n expr := by
  have hcall := rules.call_reaches source k
  refine Finishes.describe _ (Finishes.choice fun p hp => ?_)
  simp only [List.mem_cons, List.not_mem_nil, or_false] at hp
  rcases hp with rfl | rfl | rfl | rfl | rfl
  · have hquoted : Consumes (rules.call source k) source
        ((Parser.char '\'').andThen identifier : PieParser Text) := by
      intro c name d hname
      obtain ⟨mark, c₁, hmark, hword⟩ := eval_andThen_ok hname
      have hlt := consumes_char '\'' c mark c₁ hmark
      have hlt' := consumes_identifier c₁ name d hword
      omega
    exact (finishes_lexeme (finishes_skip h)
      (Finishes.andThen hcall (finishes_char '\'') finishes_identifier) hquoted).map _
  · exact (finishes_varName h).map _
  · exact (finishes_keywordTable (finishes_skip h) _).map _
  · exact (finishes_natural (finishes_skip h)).map _
  · exact finishes_compound h

theorem finishes_topLevel : Finishes (rules.call source k) source n topLevel := by
  have hcall := rules.call_reaches source k
  refine Finishes.orElse (finishes_parensLocated hcall (finishes_skip h) fun m hm => ?_)
    ((finishes_expr h).map _)
  exact (finishes_keywordTable (finishes_skip (h.mono (Nat.le_of_lt hm))) _).bind hcall fun _ =>
    finishes_commandBody h _ hm

end

/-- Under a ceiling above what is left to read, no call is cut off. -/
theorem call_finishes (source : String) (k : Nat) : CallsFinish source k k := by
  induction k with
  | zero => exact fun m hm => absurd hm (Nat.not_lt_zero m)
  | succ k ih =>
      intro m hm nt c hc
      have hle : c.rest.length ≤ k := by omega
      cases nt with
      | spacing => exact finishes_trivia ih c hle
      | datum => exact finishes_anyDatum ih c hle
      | expr => exact finishes_expr ih c hle

/-- Under a ceiling above the length of the text, a program is not cut off. -/
theorem finishes_program {text : Text} (h : text.length < k) :
    rules.run k source program (.start text) ≠ .interrupted .tooDeep := by
  have hcall := rules.call_reaches source k
  have hbelow := (call_finishes source k).mono (Nat.le_of_lt h)
  have hprogram : Finishes (rules.call source k) source text.length program :=
    Finishes.andThen hcall (Finishes.andThen hcall (finishes_text _) (finishes_trivia hbelow))
      ((finishes_topLevel hbelow).manyTill hcall finishes_eof)
  exact hprogram (.start text) (Nat.le_refl _)

/-- Under a ceiling above the length of the text, an expression is not cut off. -/
theorem finishes_expressionParser (allowTrailing : Bool) {text : Text} (h : text.length < k) :
    rules.run k source (expressionParser allowTrailing) (.start text) ≠ .interrupted .tooDeep := by
  have hcall := rules.call_reaches source k
  have hbelow := (call_finishes source k).mono (Nat.le_of_lt h)
  have hexpr : Finishes (rules.call source k) source text.length (trivia.andThen expr) :=
    (finishes_trivia hbelow).andThen hcall (finishes_expr hbelow)
  cases allowTrailing with
  | true => exact hexpr (.start text) (Nat.le_refl _)
  | false => exact hexpr.followedBy hcall finishes_eof (.start text) (Nat.le_refl _)

end Grammar

end PieSyntax
