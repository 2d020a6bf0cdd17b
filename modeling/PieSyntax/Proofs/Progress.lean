import PieSyntax.Proofs.FormByForm
import PieSyntax.Proofs.Interrupted
import PieSyntax.Proofs.Trail

/-!
# No repetition stands still

A repetition whose parser succeeds without reading anything is broken off.  `Grammar.Repeated` lists
what the lexical level, the grammar and the readers repeat; whatever is in the list reads a character
when it succeeds.  That nothing else is repeated is part of what `Grammar.Tame` says of a parser, and
it is said of all parts of all that is run.

The loop over the forms of a session has no check of its own.  It needs none, because a form takes a
character at least.

## Main results

* `Grammar.Repeated.consumes` — what is repeated reads a character.
* `Grammar.tamed_rules` — the rules repeat nothing else, and only the numeral gives up.
* `repetitions_progress` — no reader stalls, and a session is no longer than its text.
-/

namespace PieSyntax

variable {ceiling : Nat}

namespace Parser

variable {N : Type} {R : N → Type} {call : (n : N) → Cursor → Outcome (R n)} {source : String}
variable {α β : Type} {p q : Parser N R α}

/-! ## Reading a character -/

theorem consumes_satisfy (description : String) (test : Char → Bool) :
    Consumes call source (.satisfy description test : Parser N R Char) := by
  intro c a d h
  rw [Parser.eval, Cursor.readChar] at h
  split at h
  · cases h
  · rename_i ch rest hrest
    split at h
    · cases h
      simp only [hrest, List.length_cons, Nat.lt_succ_self]
    · cases h

theorem Consumes.refine {judge : α → Verdict β} (h : Consumes call source p) :
    Consumes call source (p.refine judge) := by
  intro c b d hok
  obtain ⟨a, hp, -⟩ := eval_refine_ok hok
  exact h c a d hp

theorem Consumes.named (name : String) (h : Consumes call source p) :
    Consumes call source (.named name p) := h

theorem Consumes.orElse (hp : Consumes call source p) (hq : Consumes call source q) :
    Consumes call source (p.orElse q) := by
  intro c a d hok
  rcases eval_orElse_ok hok with hok | hok
  · exact hp c a d hok
  · exact hq c a d hok

theorem Consumes.describe (description : String) (h : Consumes call source p) :
    Consumes call source (p.describe description) :=
  fun c a d hok => h c a d (eval_describe_ok hok)

theorem Consumes.choice {ps : List (Parser N R α)} (h : ∀ p ∈ ps, Consumes call source p) :
    Consumes call source (choice ps) := by
  intro c a d hok
  obtain ⟨p, hp, hok⟩ := eval_choice_ok hok
  exact h p hp c a d hok

/-- What comes after a parser that reads a character does not give it back. -/
theorem Consumes.bind (hcall : ∀ n c, (call n c).AheadOf c) {next : α → Parser N R β}
    (h : Consumes call source p) : Consumes call source (p.bind next) := by
  intro c b e hok
  obtain ⟨a, d, hp, hnext⟩ := eval_bind_ok hok
  have hlt := h c a d hp
  have hle := length_le_of_eval hcall hnext
  omega

end Parser

namespace Grammar

open PieSyntax.Parser

variable {source : String} {k : Nat} {α β : Type}

theorem consumes_open :
    Consumes (rules.call source k) source (lexeme skip (.char '(') : PieParser (Located Char)) :=
  consumes_lexeme (rules.call_reaches source k) (consumes_char '(')

theorem consumes_parens (p : PieParser α) :
    Consumes (rules.call source k) source (parens skip p) := by
  have hcall := rules.call_reaches source k
  have hbody : Consumes (rules.call source k) source ((lexeme skip (.char '(')).andThen p) :=
    Consumes.named _ (consumes_open.bind hcall)
  exact Consumes.named _ (hbody.bind hcall)

theorem consumes_parensLocated (p : PieParser α) :
    Consumes (rules.call source k) source (parensLocated skip p) :=
  Consumes.named _ (consumes_open.bind (rules.call_reaches source k))

theorem consumes_varName : Consumes (rules.call source k) source varName :=
  Consumes.describe _ (consumes_lexeme (rules.call_reaches source k) consumes_identifier).refine

theorem consumes_expr : Consumes (rules.call source k) source expr := by
  have hcall := rules.call_reaches source k
  have hquoted : Consumes (rules.call source k) source
      ((Parser.char '\'').andThen identifier : PieParser Text) :=
    Consumes.named _ ((consumes_char '\'').bind hcall)
  have hword : Consumes (rules.call source k) source (lexeme skip identifier) :=
    consumes_lexeme hcall consumes_identifier
  have hnumeral : Consumes (rules.call source k) source (lexeme skip digits) :=
    consumes_lexeme hcall consumes_digits
  refine Consumes.describe _ (Consumes.choice fun p hp => ?_)
  simp only [List.mem_cons, List.not_mem_nil, or_false] at hp
  rcases hp with rfl | rfl | rfl | rfl | rfl
  · exact (consumes_lexeme hcall hquoted).refine
  · exact consumes_varName.refine
  · exact hword.refine.refine
  · exact hnumeral.refine.refine
  · exact consumes_parensLocated _

/-- An expression that is called reads a character. -/
theorem consumes_innerExpr : Consumes (rules.call source k) source innerExpr := by
  intro c e d h
  cases k with
  | zero => cases h
  | succ k => exact consumes_expr c e d h

theorem consumes_topLevel : Consumes (rules.call source k) source topLevel :=
  (consumes_parensLocated _).orElse consumes_expr.refine

/-! ## What is repeated -/

/-- What the lexical level, the grammar and the readers repeat. -/
inductive Repeated : {α : Type} → PieParser α → Prop where
  /-- The characters of an identifier after the first. -/
  | subsequent : Repeated (.satisfy "identifier subsequent character" isSubsequent)
  | digit : Repeated (.satisfy "digit" isDigit)
  /-- A piece of trivia: a blank or a comment. -/
  | triviaItem : Repeated triviaItem
  /-- A datum in a group. -/
  | datum : Repeated innerDatum
  /-- An argument of an application, or a type of an arrow. -/
  | expr : Repeated innerExpr
  /-- A name that an abstraction binds. -/
  | binder : Repeated (varName.map fun token => (⟨token.loc, token.value⟩ : Binder))
  /-- A name that a dependent type binds, with its type. -/
  | typedBinder : Repeated (parens skip typedBinder)
  /-- A form of a program or of a session. -/
  | topLevel : Repeated topLevel

/-- Whatever is repeated reads a character when it succeeds. -/
theorem Repeated.consumes {p : PieParser α} (h : Repeated p) :
    Consumes (rules.call source k) source p := by
  cases h with
  | subsequent => exact consumes_satisfy _ _
  | digit => exact consumes_satisfy _ _
  | triviaItem => exact consumes_triviaItem
  | datum => exact consumes_innerDatum
  | expr => exact consumes_innerExpr
  | binder => exact consumes_varName.refine
  | typedBinder => exact consumes_parens _
  | topLevel => exact consumes_topLevel

/-- Whatever is repeated ends further on than it started. -/
theorem Repeated.offset_lt {p : PieParser α} (h : Repeated p) {c d : Cursor} {a : α}
    (hok : rules.run k source p c = .ok a d) : c.offset < d.offset := by
  have hreaches := Rules.reaches_of_run hok
  have hne := hreaches.offset_ne (h.consumes c a d hok)
  have hle := hreaches.offset_le
  omega

/-! ## Parts that are tame -/

/-- A numeral that is too long to be read gives up, once the trivia after it have been skipped. -/
inductive GivesUp (source : String) : Task Production Production.Result → Nat → Prop where
  | intro {k : Nat} {c d : Cursor} {token : Located Text}
    (h : rules.run k source (lexeme skip digits) c = .ok token d)
    (hlong : maxDigits < token.value.length) :
    GivesUp source ⟨k, natural skip, c⟩ token.value.length

/-- A judge who gives up is that of numerals, and what is repeated is in the list. -/
def Tame (source : String) : {α : Type} → PieParser α → Prop
  | _, .refine p judge =>
    ∀ k c a d why, rules.run k source p c = .ok a d → judge a = .interrupt why →
      ∃ n, why = .numeralTooLong ⟨n⟩ ∧ GivesUp source ⟨k, p.refine judge, c⟩ n
  | _, .many p => Repeated p
  | _, .manyTill p _ => Repeated p
  | _, _ => True

/-- The parser and all its parts are tame. -/
abbrev Tamed (source : String) (p : PieParser α) : Prop := p.Throughout rules source (Tame source)

variable {p q : PieParser α}

theorem tamed_char (ch : Char) : Tamed source (.char ch) := trivial

theorem tamed_text (s : Text) : Tamed source (.text s) := trivial

theorem tamed_spanning (test : Char → Bool) : Tamed source (.spanning test) := trivial

theorem Tamed.refine {judge : α → Verdict β} (h : Tamed source p)
    (hjudge : ∀ a why, judge a ≠ .interrupt why) : Tamed source (p.refine judge) :=
  ⟨fun _ _ a _ why _ hj => absurd hj (hjudge a why), h⟩

theorem Tamed.map (f : α → β) (h : Tamed source p) : Tamed source (p.map f) :=
  h.refine fun _ _ hj => by cases hj

theorem Tamed.guard {test : α → Bool} (e : Expectation) (h : Tamed source p) :
    Tamed source (p.guard test e) := by
  refine h.refine fun a why hj => ?_
  split at hj <;> cases hj

theorem Tamed.bind {next : α → PieParser β} (h : Tamed source p)
    (hnext : ∀ a, Tamed source (next a)) : Tamed source (p.bind next) :=
  ⟨trivial, h, fun _ _ a _ _ => hnext a⟩

theorem Tamed.orElse (hp : Tamed source p) (hq : Tamed source q) : Tamed source (p.orElse q) :=
  ⟨trivial, hp, fun _ => hq⟩

theorem Tamed.many (hrep : Repeated p) (h : Tamed source p) : Tamed source p.many := ⟨hrep, h⟩

theorem Tamed.located (h : Tamed source p) : Tamed source p.located := ⟨trivial, h⟩

theorem Tamed.named (name : String) (h : Tamed source p) : Tamed source (.named name p) :=
  ⟨trivial, h⟩

theorem Tamed.andThen {r : PieParser β} (h : Tamed source p) (hr : Tamed source r) :
    Tamed source (p.andThen r) :=
  Tamed.named _ (h.bind fun _ => hr)

theorem Tamed.followedBy {r : PieParser β} (h : Tamed source p) (hr : Tamed source r) :
    Tamed source (p.followedBy r) :=
  Tamed.named _ (h.bind fun _ => hr.map _)

theorem Tamed.many1 (hrep : Repeated p) (h : Tamed source p) : Tamed source p.many1 :=
  Tamed.named _ (h.bind fun _ => (h.many hrep).map _)

theorem Tamed.describe (description : String) (h : Tamed source p) :
    Tamed source (p.describe description) :=
  Tamed.named _ (h.orElse trivial)

theorem Tamed.choice {ps : List (PieParser α)} (h : ∀ p ∈ ps, Tamed source p) :
    Tamed source (choice ps) := by
  cases ps with
  | nil => exact trivial
  | cons p ps =>
      exact ⟨trivial, h p List.mem_cons_self, fun i => h _ (List.mem_cons_of_mem p (ps.get_mem i))⟩

/-- The alternatives of a tame choice are tame. -/
theorem Tamed.of_mem_choice {ps : List (PieParser α)} (h : Tamed source (Parser.choice ps)) :
    ∀ p ∈ ps, Tamed source p := by
  cases ps with
  | nil => exact List.forall_mem_nil _
  | cons p ps => exact List.forall_mem_cons.mpr ⟨h.2.1, List.forall_mem_iff_get.mpr h.2.2⟩

/-! ## Tokens -/

theorem tamed_identifier : Tamed source (identifier : PieParser Text) := by
  have hmany : Tamed source
      (Parser.satisfy "identifier subsequent character" isSubsequent : PieParser Char).many :=
    Tamed.many .subsequent trivial
  have hsign : Tamed source (choice [.text "+".toList, .text "-".toList, .text "...".toList] :
      PieParser Text) :=
    Tamed.choice fun p hp => by
      simp only [List.mem_cons, List.not_mem_nil, or_false] at hp
      rcases hp with rfl | rfl | rfl <;> exact trivial
  refine Tamed.orElse (Tamed.named _ (Tamed.bind trivial fun _ => hmany.map _)) ?_
  exact Tamed.named _ (hsign.bind fun _ => hmany.map _)

theorem tamed_digits : Tamed source (digits : PieParser Text) :=
  Tamed.describe _ (Tamed.many1 .digit trivial)

theorem tamed_lexeme (h : Tamed source p) : Tamed source (lexeme skip p) :=
  h.located.followedBy trivial

theorem tamed_parens (h : Tamed source p) : Tamed source (parens skip p) :=
  ((tamed_lexeme (tamed_char '(')).andThen h).followedBy (tamed_lexeme (tamed_char ')'))

/-- The two halves of a bracket lie in one source. -/
theorem tamed_parensLocated (h : Tamed source p) : Tamed source (parensLocated skip p) := by
  refine Tamed.named _ ⟨trivial, tamed_lexeme (tamed_char '('), fun k c opening d hopen => ?_⟩
  refine h.bind fun value =>
    ⟨fun k' c' closing d' why hclosing hj => ?_, tamed_lexeme (tamed_char ')')⟩
  obtain ⟨-, hloc, -⟩ := eval_lexeme_char_ok hopen
  obtain ⟨-, hloc', -⟩ := eval_lexeme_char_ok hclosing
  simp only [hloc, hloc', join_same_source] at hj
  cases hj

theorem tamed_keywordTable (table : List (Text × β)) : Tamed source (keywordTable skip table) := by
  refine (tamed_lexeme tamed_identifier).refine fun token why hj => ?_
  split at hj <;> cases hj

/-- The judge of numerals is the one who gives up. -/
theorem tamed_natural : Tamed source (natural skip) := by
  refine ⟨fun k c token d why hok hj => ?_, tamed_lexeme tamed_digits⟩
  by_cases hlong : maxDigits < token.value.length
  · simp only [readNumeral, if_pos hlong] at hj
    cases hj
    exact ⟨_, rfl, .intro hok hlong⟩
  · simp only [readNumeral, if_neg hlong] at hj
    cases hj

/-! ## The grammar -/

theorem tamed_anyDatum : Tamed source anyDatum := by
  have hgroup : Tamed source (parens skip innerDatum.many) :=
    tamed_parens (Tamed.many .datum trivial)
  exact (tamed_lexeme (((hgroup.map _).orElse (tamed_identifier.map _)).orElse
    (tamed_digits.map _))).map _

theorem tamed_trivia : Tamed source trivia := by
  refine (Tamed.many .triviaItem (Tamed.choice fun p hp => ?_)).map _
  rcases List.mem_append.mp hp with hp | hp
  · obtain ⟨ch, -, rfl⟩ := List.mem_map.mp hp
    exact Tamed.map _ trivial
  · simp only [List.mem_cons, List.not_mem_nil, or_false] at hp
    rcases hp with rfl | rfl
    · exact Tamed.describe _ (((tamed_char ';').andThen (tamed_spanning _)).andThen
        (Tamed.orElse (Tamed.map _ trivial) trivial))
    · exact ((tamed_lexeme (tamed_text _)).andThen tamed_anyDatum).map _

theorem tamed_varName : Tamed source varName :=
  ((tamed_lexeme tamed_identifier).guard _).describe _

theorem tamed_binders : Tamed source binders :=
  tamed_parens (Tamed.many1 .binder (tamed_varName.map _))

theorem tamed_typedBinders : Tamed source typedBinders :=
  tamed_parens (Tamed.many1 .typedBinder (tamed_parens (Tamed.named _
    (tamed_varName.bind fun _ => Tamed.map _ trivial))))

theorem tamed_arguments (n : Nat) : Tamed source (arguments n) := by
  induction n with
  | zero => exact trivial
  | succ n ih => exact Tamed.bind trivial fun _ => ih.map _

theorem tamed_headBody (head : Head) : Tamed source (headBody head) := by
  refine Tamed.named _ ?_
  cases head with
  | form f => exact (tamed_arguments f.arity).map _
  | lambda => exact tamed_binders.bind fun _ => Tamed.map _ trivial
  | quantifier q => exact tamed_typedBinders.bind fun _ => Tamed.map _ trivial
  | arrow => exact Tamed.bind trivial fun _ => (Tamed.many1 .expr trivial).map _

theorem tamed_commandBody (command : Command) : Tamed source (commandBody command) := by
  refine Tamed.named _ ?_
  cases command with
  | claim => exact tamed_varName.bind fun _ => Tamed.map _ trivial
  | define => exact tamed_varName.bind fun _ => Tamed.map _ trivial
  | checkSame => exact Tamed.bind trivial fun _ => Tamed.bind trivial fun _ => Tamed.map _ trivial

theorem tamed_application : Tamed source application :=
  Tamed.named _ (Tamed.bind trivial fun _ => (Tamed.many1 .expr trivial).map _)

theorem tamed_compound : Tamed source compound :=
  tamed_parensLocated (Tamed.orElse ((tamed_keywordTable _).bind fun entry =>
    tamed_headBody entry.value) tamed_application)

theorem tamed_expr : Tamed source expr := by
  refine Tamed.describe _ (Tamed.choice fun p hp => ?_)
  simp only [List.mem_cons, List.not_mem_nil, or_false] at hp
  rcases hp with rfl | rfl | rfl | rfl | rfl
  · exact (tamed_lexeme ((tamed_char '\'').andThen tamed_identifier)).map _
  · exact tamed_varName.map _
  · exact (tamed_keywordTable _).map _
  · exact tamed_natural.map _
  · exact tamed_compound

theorem tamed_topLevel : Tamed source topLevel :=
  (tamed_parensLocated ((tamed_keywordTable _).bind fun entry =>
    tamed_commandBody entry.value)).orElse (tamed_expr.map _)

/-- The rules are tame. -/
theorem tamed_rules (n : Production) : Tamed source (rules n) := by
  cases n with
  | spacing => exact tamed_trivia
  | datum => exact tamed_anyDatum
  | expr => exact tamed_expr

/-! ## What the readers run -/

/-- What the readers run: a program, an expression that stands alone, and for a session the trivia
that come first and each form. -/
inductive Started : {α : Type} → PieParser α → Prop where
  | program : Started program
  | expression (allowTrailing : Bool) : Started (expressionParser allowTrailing)
  | trivia : Started trivia
  | topLevel : Started topLevel

theorem Started.tamed {p : PieParser α} (h : Started p) : Tamed source p := by
  have heof : Tamed source (.eof : PieParser Unit) := trivial
  have hexpr : Tamed source (Grammar.trivia.andThen expr) := tamed_trivia.andThen tamed_expr
  cases h with
  | program =>
      exact ((tamed_text _).andThen tamed_trivia).andThen ⟨.topLevel, tamed_topLevel, heof⟩
  | expression allowTrailing =>
      cases allowTrailing with
      | true => exact hexpr
      | false => exact hexpr.followedBy heof
  | trivia => exact tamed_trivia
  | topLevel => exact tamed_topLevel

/-- All that the readers come to run is tame. -/
theorem Started.tame {p : PieParser α} (h : Started p) {c : Cursor}
    {u : Task Production Production.Result} (hvisits : Task.Visits rules source ⟨k, p, c⟩ u) :
    Tame source u.parser :=
  (hvisits.throughout tamed_rules h.tamed).self

theorem GivesUp.raises {t : Task Production Production.Result} {n : Nat} (h : GivesUp source t n) :
    Task.Raises rules source t (.numeralTooLong ⟨n⟩) := by
  cases h with
  | @intro k c d token h hlong =>
      refine .judge h ?_
      simp only [readNumeral, if_pos hlong]

/-- What is run is broken off by the ceiling, or by a numeral that is too long to be read. -/
theorem Started.interrupted_iff {p : PieParser α} (h : Started p) {c : Cursor}
    {why : Interruption} (hwhy : why ≠ .tooDeep) :
    rules.run k source p c = .interrupted why ↔
      ∃ u n, Task.Visits rules source ⟨k, p, c⟩ u ∧ GivesUp source u n ∧
        why = .numeralTooLong ⟨n⟩ := by
  refine Iff.trans (Task.outcome_eq_interrupted_iff (t := ⟨k, p, c⟩)) ⟨?_, ?_⟩
  · rintro ⟨u, hvisits, hraises⟩
    have htame := h.tame hvisits
    cases hraises with
    | tooDeep => exact absurd rfl hwhy
    | judge hok hj =>
        obtain ⟨n, hn, hgives⟩ := htame _ _ _ _ _ hok hj
        exact ⟨_, n, hvisits, hgives, hn⟩
    | many hok hstill =>
        have hlt := Repeated.offset_lt htame hok
        omega
    | manyTill hstop hok hstill =>
        have hlt := Repeated.offset_lt htame hok
        omega
  · rintro ⟨u, n, hvisits, hgives, rfl⟩
    exact ⟨u, hvisits, hgives.raises⟩

/-- Nothing that is run stalls. -/
theorem Started.ne_stalled {p : PieParser α} (h : Started p) {c : Cursor} (loop : Repetition)
    (label : String) (pos : Position) :
    rules.run k source p c ≠ .interrupted (.stalled loop label pos) := by
  intro hstalled
  obtain ⟨u, n, -, -, hwhy⟩ := (h.interrupted_iff (by simp)).mp hstalled
  cases hwhy

end Grammar

/-! ## Sessions -/

variable {source : String} {text : Text} {c d : Cursor} {ts : List TopLevel}

theorem readFrom_eq_interrupted_iff {α : Type} {p : PieParser α} {why : Interruption} :
    readFrom source text c p ceiling = .error (.interrupted why) ↔
      why ≠ .tooDeep ∧ Grammar.rules.run ceiling source p c = .interrupted why := by
  rw [readFrom]
  cases Grammar.rules.run ceiling source p c with
  | ok a d => simp
  | fail f => simp
  | interrupted why' => cases why' <;> simp +contextual [eq_comm]

/-- What the loop over the forms of a text comes to, told without its fuel: it stops at the end of the
text, or breaks off where something cannot be read. -/
inductive SessionEnds (source : String) (ceiling : Nat) (text : Text) : FormSequence → Prop where
  /-- The trivia before the first form cannot be skipped. -/
  | trivia {e : ReadError} (h : readFrom source text (.start text) Grammar.trivia ceiling = .error e) :
    SessionEnds source ceiling text ⟨[], some e⟩
  | stop {c d : Cursor} {ts : List TopLevel}
    (h : Grammar.rules.run ceiling source Grammar.trivia (.start text) = .ok () c)
    (hforms : FormsRead source ceiling c ts d) (hend : d.rest = []) :
    SessionEnds source ceiling text ⟨ts, none⟩
  /-- A form cannot be read. -/
  | form {c d : Cursor} {ts : List TopLevel} {e : ReadError}
    (h : Grammar.rules.run ceiling source Grammar.trivia (.start text) = .ok () c)
    (hforms : FormsRead source ceiling c ts d) (hend : d.rest ≠ [])
    (hread : readFrom source text d Grammar.topLevel ceiling = .error e) :
    SessionEnds source ceiling text ⟨ts, some e⟩

theorem iterForms_sessionEnds (source : String) (ceiling : Nat) (text : Text) :
    SessionEnds source ceiling text (iterForms source text ceiling) := by
  cases htrivia : readFrom source text (.start text) Grammar.trivia ceiling with
  | error e =>
      rw [iterForms, htrivia]
      exact .trivia htrivia
  | ok progress =>
      obtain ⟨u, c⟩ := progress
      have hrun := readFrom_eq_ok_iff.mp htrivia
      rw [iterForms_eq_session hrun]
      obtain ⟨d, hforms, hend⟩ := exists_formsRead_session source text c
      generalize session source text c ceiling = s at hforms hend
      obtain ⟨forms, ending⟩ := s
      rcases hend with ⟨hnil, hnone⟩ | ⟨hne, e, hread, hsome⟩
      · cases hnone
        exact .stop hrun hforms hnil
      · cases hsome
        exact .form hrun hforms hne hread

/-- Every form takes a character at least. -/
theorem FormsRead.length_le (h : FormsRead source ceiling c ts d) :
    ts.length + d.rest.length ≤ c.rest.length := by
  induction h with
  | nil c => simp
  | cons h hrest ih =>
      have hlt := length_lt_of_eval_topLevel h
      rw [List.length_cons]
      omega

/-- However long the loop goes on, it reads no more forms than the text has characters. -/
theorem FormsRead.length_le_text
    (htrivia : Grammar.rules.run ceiling source Grammar.trivia (.start text) = .ok () c)
    (h : FormsRead source ceiling c ts d) : ts.length ≤ text.length := by
  have hle : c.rest.length ≤ text.length := (Rules.reaches_of_run htrivia).length_le
  have hforms := h.length_le
  omega

theorem SessionEnds.length_le {s : FormSequence} (h : SessionEnds source ceiling text s) :
    s.forms.length ≤ text.length := by
  cases h with
  | trivia h => exact Nat.zero_le _
  | stop h hforms hend => exact hforms.length_le_text h
  | form h hforms hend hread => exact hforms.length_le_text h

/-- The error that ends a session comes from the trivia before it or from one of its forms. -/
theorem SessionEnds.exists_readFrom {s : FormSequence} {e : ReadError}
    (h : SessionEnds source ceiling text s) (he : s.ending = some e) :
    readFrom source text (.start text) Grammar.trivia ceiling = .error e ∨
      ∃ d, d.At text ∧ readFrom source text d Grammar.topLevel ceiling = .error e := by
  cases h with
  | stop hrun hforms hend => cases he
  | trivia hread =>
      cases he
      exact Or.inl hread
  | @form c d ts e hrun hforms hend hread =>
      cases he
      have hreaches := (Rules.reaches_of_run hrun).trans hforms.reaches
      exact Or.inr ⟨d, hreaches.at (Cursor.start_at text), hread⟩

/-! ## The readers -/

theorem Grammar.Started.readFrom_ne_stalled {α : Type} {p : PieParser α} (h : Grammar.Started p)
    (loop : Repetition) (label : String) (pos : Position) :
    readFrom source text c p ceiling ≠ .error (.interrupted (.stalled loop label pos)) :=
  fun hread => h.ne_stalled loop label pos (readFrom_eq_interrupted_iff.mp hread).2

theorem EntryPoint.started (e : EntryPoint) : Grammar.Started e.parser := by
  cases e with
  | program => exact .program
  | expression allowTrailing => exact .expression allowTrailing

/-- What a caller sees is an interruption just when the run is broken off by one. -/
theorem EntryPoint.read_eq_interrupted_iff {e : EntryPoint} {why : Interruption} :
    e.read source text ceiling = .error (.interrupted why) ↔
      why ≠ .tooDeep ∧
        Grammar.rules.run ceiling source e.parser (.start text) = .interrupted why := by
  rw [EntryPoint.read_eq_error_iff, readFrom_eq_interrupted_iff]

theorem SessionEnds.ending_ne_stalled {s : FormSequence} (h : SessionEnds source ceiling text s)
    (loop : Repetition) (label : String) (pos : Position) :
    s.ending ≠ some (.interrupted (.stalled loop label pos)) := by
  intro hend
  rcases h.exists_readFrom hend with hread | ⟨d, -, hread⟩
  · exact Grammar.Started.trivia.readFrom_ne_stalled loop label pos hread
  · exact Grammar.Started.topLevel.readFrom_ne_stalled loop label pos hread

/-- Repetitions make progress.  Whatever is repeated ends further on than it started, from any cursor,
and the readers come to no other repetition; so no reader stalls.  The loop over the forms of a text
reads no more of them than the text has characters, before it stops or breaks off. -/
theorem repetitions_progress (source : String) :
    (∀ {α : Type} (p : PieParser α), Grammar.Repeated p → ∀ k c a d,
      Grammar.rules.run k source p c = .ok a d → c.offset < d.offset) ∧
    (∀ {α : Type} (p : PieParser α), Grammar.Started p → ∀ k c,
      (∀ {β : Type} (q : PieParser β) j d,
        Task.Visits Grammar.rules source ⟨k, p, c⟩ ⟨j, q.many, d⟩ → Grammar.Repeated q) ∧
      (∀ {β γ : Type} (q : PieParser β) (stop : PieParser γ) j d,
        Task.Visits Grammar.rules source ⟨k, p, c⟩ ⟨j, q.manyTill stop, d⟩ → Grammar.Repeated q) ∧
      ∀ loop label pos,
        Grammar.rules.run k source p c ≠ .interrupted (.stalled loop label pos)) ∧
    ∀ text : Text,
      (∀ (e : EntryPoint) loop label pos,
        e.read source text ceiling ≠ .error (.interrupted (.stalled loop label pos))) ∧
      (∀ loop label pos,
        (iterForms source text ceiling).ending ≠ some (.interrupted (.stalled loop label pos))) ∧
      SessionEnds source ceiling text (iterForms source text ceiling) ∧
      (∀ c ts d,
        Grammar.rules.run ceiling source Grammar.trivia (.start text) = .ok () c →
          FormsRead source ceiling c ts d → ts.length ≤ text.length) ∧
      (iterForms source text ceiling).forms.length ≤ text.length := by
  refine ⟨fun p hp k c a d => hp.offset_lt, fun p hp k c => ⟨?_, ?_, hp.ne_stalled⟩, fun text => ?_⟩
  · exact fun q j d hvisits => hp.tame hvisits
  · exact fun q stop j d hvisits => hp.tame hvisits
  · have hends := iterForms_sessionEnds source ceiling text
    refine ⟨fun e loop label pos hread => ?_, hends.ending_ne_stalled, hends,
      fun c ts d hrun hforms => hforms.length_le_text hrun, hends.length_le⟩
    exact e.started.ne_stalled loop label pos (EntryPoint.read_eq_interrupted_iff.mp hread).2

/-- A space takes one character, and a session of two names has no more forms than characters. -/
theorem progress_twoNames :
    (∃ d, Grammar.rules.run 0 "<memory>" Grammar.triviaItem ⟨" b".toList, 1, ⟨1, 2⟩⟩ = .ok () d ∧
      1 < d.offset) ∧
    (iterForms "<memory>" "a b".toList).forms.length = 2 ∧
    (iterForms "<memory>" "a b".toList).forms.length ≤ "a b".toList.length := by
  obtain ⟨hitem, -, htext⟩ := repetitions_progress "<memory>"
  have hspace : Grammar.rules.run 0 "<memory>" Grammar.triviaItem ⟨" b".toList, 1, ⟨1, 2⟩⟩ =
      .ok () ⟨"b".toList, 2, ⟨1, 3⟩⟩ := rfl
  have hcount : (iterForms "<memory>" "a b".toList).forms.length = 2 := by decide +kernel
  exact ⟨⟨_, hspace, hitem _ .triviaItem _ _ _ _ hspace⟩, hcount, (htext _).2.2.2.2⟩

end PieSyntax
