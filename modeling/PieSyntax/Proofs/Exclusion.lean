import PieSyntax.Proofs.Hints
import PieSyntax.Proofs.Productions

/-!
# Alternatives exclude one another

What an alternative needs is that the text begins in some way where it is tried: with a character of
some class, or with a word of some kind.  `Grammar.Needs` says that it fails otherwise, unless it is
cut off; and alternatives that need texts to begin in different ways exclude one another.

The three tables of keywords have no word in common, and none of their words is a name.  So a word
after an opening parenthesis decides between a keyword and an application.  Between commands and
expressions it does so as well, although both start with a parenthesis and with trivia of any length.

## Main results

* `Grammar.Choice.pairwise_apart` — of the alternatives of a choice at most one does not fail.
* `Grammar.declines_application_of_head`, `Grammar.declines_expr_of_head` — a keyword form is read by
  the production of its keyword, or not at all.
-/

namespace PieSyntax

/-! ## How a text begins -/

/-- The text begins with a character of the class. -/
def BeginsWith (test : Char → Bool) (s : Text) : Prop := ∃ ch ∈ s.head?, test ch = true

/-- The text begins with a word of the kind. -/
def BeginsWithWord (kind : Text → Prop) (s : Text) : Prop :=
  ∃ name, wordPrefix s = some name ∧ kind name

variable {test test' : Char → Bool} {kind kind' : Text → Prop} {s : Text}

theorem BeginsWith.not (h : BeginsWith test s) (hdisj : ∀ ch, test ch = true → test' ch = false) :
    ¬ BeginsWith test' s := by
  rintro ⟨ch', hch', htest'⟩
  obtain ⟨ch, hch, htest⟩ := h
  obtain rfl : ch = ch' := Option.mem_unique hch hch'
  rw [hdisj ch htest] at htest'
  cases htest'

theorem BeginsWith.not_char (h : BeginsWith test s) {x : Char} (hx : test x = false) :
    ¬ BeginsWith (· == x) s := by
  refine h.not fun ch hch => beq_false_of_ne ?_
  rintro rfl
  rw [hx] at hch
  cases hch

theorem BeginsWithWord.beginsWith (h : BeginsWithWord kind s) : BeginsWith isWordStart s := by
  obtain ⟨name, hname, -⟩ := h
  obtain ⟨r, rfl⟩ := exists_of_wordPrefix hname
  obtain ⟨ch, t, rfl, hch⟩ := (IsWord.of_wordPrefix hname).head
  exact ⟨ch, rfl, hch⟩

theorem BeginsWithWord.not (h : BeginsWithWord kind s) (hdisj : ∀ name, kind name → ¬ kind' name) :
    ¬ BeginsWithWord kind' s := by
  rintro ⟨name', hname', hkind'⟩
  obtain ⟨name, hname, hkind⟩ := h
  obtain rfl : name = name' := Option.some.inj (hname.symm.trans hname')
  exact hdisj name hkind hkind'

theorem BeginsWith.not_digit (h : BeginsWith isWordStart s) : ¬ BeginsWith isDigit s := by
  refine h.not fun ch hch => Bool.eq_false_iff.mpr fun hdigit => ?_
  rw [isWordStart_of_isDigit hdigit] at hch
  cases hch

theorem head_of_not_beginsWith (h : ¬ BeginsWith test s) : ∀ ch ∈ s.head?, test ch = false := by
  intro ch hch
  by_contra htest
  exact h ⟨ch, hch, by simpa using htest⟩

namespace Grammar

open PieSyntax.Parser

variable {source : String} {k : Nat} {c c₁ : Cursor} {α β : Type} {p q : PieParser α}
variable {begins begins' : Text → Prop}

/-! ## What alternatives need -/

/-- The parser fails where the text does not begin in the given way, unless it is cut off. -/
def Needs (source : String) (begins : Text → Prop) (p : PieParser α) : Prop :=
  ∀ k c, ¬ begins c.rest → Declines (rules.call source k) source (.empty True) p c

/-- One of the two fails wherever both are tried, unless it is cut off. -/
def Apart (source : String) (p q : PieParser α) : Prop :=
  ∀ k c, Declines (rules.call source k) source (.empty True) p c ∨
    Declines (rules.call source k) source (.empty True) q c

theorem Needs.apart (hp : Needs source begins p) (hq : Needs source begins' q)
    (h : ∀ s, begins s → ¬ begins' s) : Apart source p q := by
  intro k c
  by_cases hb : begins c.rest
  · exact Or.inr (hq k c (h _ hb))
  · exact Or.inl (hp k c hb)

theorem pairwise_apart {bs : List (Text → Prop)} {ps : List (PieParser α)}
    (h : List.Forall₂ (Needs source) bs ps)
    (hbs : bs.Pairwise fun begins begins' => ∀ s, begins s → ¬ begins' s) :
    ps.Pairwise (Apart source) := by
  induction h with
  | nil => exact .nil
  | @cons b p bs ps hp hps ih =>
      obtain ⟨hb, hbs⟩ := List.pairwise_cons.mp hbs
      refine List.pairwise_cons.mpr ⟨fun q hq => ?_, ih hbs⟩
      obtain ⟨i, hi, rfl⟩ := List.getElem_of_mem hq
      have hi' : i < bs.length := hps.length_eq ▸ hi
      exact hp.apart (hps.get hi' hi) (hb _ (List.getElem_mem hi'))

theorem Needs.map (f : α → β) (h : Needs source begins p) : Needs source begins (p.map f) :=
  fun k c hc => Declines.map f (h k c hc)

/-- What is known of the text is known with the empty tail. -/
theorem forall_empty {P : Text → Prop} {s : Text} (h : P s) :
    ∀ v, (Tails.empty True) v → P (s ++ v) := by
  intro v hv
  rw [show v = [] from hv, List.append_nil]
  exact h

theorem needs_char (ch : Char) : Needs source (BeginsWith (· == ch)) (.char ch) := by
  refine fun k c hc => Declines.char fun v hv hhead => hc ⟨ch, ?_, beq_self_eq_true ch⟩
  rw [show v = [] from hv, List.append_nil] at hhead
  exact hhead

theorem Needs.bind {next : α → PieParser β} (h : Needs source begins p) :
    Needs source begins (p.bind next) :=
  fun k c hc => Declines.bind (h k c hc)

theorem Needs.lexeme (h : Needs source begins p) : Needs source begins (lexeme skip p) :=
  fun k c hc => Declines.lexeme (h k c hc)

theorem Needs.andThen {r : PieParser β} (h : Needs source begins p) :
    Needs source begins (p.andThen r) :=
  fun k c hc => Declines.andThen (h k c hc)

theorem Needs.describe (description : String) (h : Needs source begins p) :
    Needs source begins (p.describe description) :=
  fun k c hc => Declines.describe _ (h k c hc)

theorem Needs.refine {judge : α → Verdict β} (h : Needs source begins p) :
    Needs source begins (p.refine judge) :=
  fun k c hc => Declines.refine (h k c hc)

theorem needs_text {ch : Char} {s : Text} (h : s.head? = some ch) :
    Needs source (BeginsWith (· == ch)) (.text s : PieParser Text) := by
  refine fun k c hc => Declines.text fun v hv hprefix => hc ⟨ch, ?_, beq_self_eq_true ch⟩
  rw [show v = [] from hv, List.append_nil] at hprefix
  obtain ⟨r, hr⟩ := List.head?_eq_some_iff.mp h
  obtain ⟨t, ht⟩ := hprefix
  rw [← ht, hr]
  rfl

theorem needs_parens (p : PieParser α) : Needs source (BeginsWith (· == '(')) (parens skip p) :=
  fun k c hc => Declines.followedBy ((needs_char '(').lexeme.andThen k c hc)

theorem needs_parensLocated (p : PieParser α) :
    Needs source (BeginsWith (· == '(')) (parensLocated skip p) :=
  fun k c hc => Declines.named _ ((needs_char '(').lexeme.bind k c hc)

theorem needs_identifier : Needs source (BeginsWith isWordStart) (identifier : PieParser Text) :=
  fun _ _ hc => Declines.identifier (forall_empty (P := fun s => wordPrefix s = none)
    (wordPrefix_eq_none_of_head (head_of_not_beginsWith hc)))

theorem needs_digits : Needs source (BeginsWith isDigit) (digits : PieParser Text) :=
  fun _ _ hc => Declines.digits (forall_empty (P := fun s => digitPrefix s = none)
    (digitPrefix_eq_none_of_head (head_of_not_beginsWith hc)))

/-! ## Words -/

/-- What reads a word first, and fails after one that is not of the kind, needs one that is. -/
theorem needs_word
    (hnone : ∀ k c, wordPrefix c.rest = none →
      Declines (rules.call source k) source (.empty True) p c)
    (hkind : ∀ k c name, wordPrefix c.rest = some name → ¬ kind name →
      Declines (rules.call source k) source (.empty True) p c) :
    Needs source (BeginsWithWord kind) p := by
  intro k c hc
  cases hname : wordPrefix c.rest with
  | none => exact hnone k c hname
  | some name => exact hkind k c name hname fun hk => hc ⟨name, hname, hk⟩

theorem needs_varName : Needs source (BeginsWithWord fun name => isFreeName name = true) varName := by
  refine needs_word (fun k c hnone => ?_) fun k c name hname hfree => ?_
  · exact Declines.describe _ (Declines.refine (Declines.lexeme (Declines.identifier
      (forall_empty (P := fun s => wordPrefix s = none) hnone))))
  · exact declines_varName_reserved hname (by simpa using hfree)

theorem needs_keywordTable (table : List (Text × β)) :
    Needs source (BeginsWithWord fun name => table.lookup name ≠ none) (keywordTable skip table) := by
  refine needs_word (fun k c hnone => ?_) fun k c name hname hlookup => ?_
  · exact Declines.keywordTable (forall_empty (P := fun s => wordPrefix s = none) hnone)
  · exact declines_keywordTable_of_lookup hname (not_not.mp hlookup)

/-- What is applied is no keyword. -/
theorem needs_application : Needs source (fun s => ¬ BeginsWithWord (fun name =>
    isFreeName name = false ∧ constantTable.lookup name = none) s) application := by
  intro k c hc
  obtain ⟨name, hname, hreserved, hlookup⟩ := not_not.mp hc
  exact Declines.named _ (Declines.bind (Rules.declines_call (Or.inl trivial) fun _ _ =>
    declines_expr_reserved hname hreserved hlookup))

/-! ## The choices of the grammar -/

theorem pairwise_beginsWith {chs : List Char} (h : chs.Nodup) :
    (chs.map fun ch => BeginsWith (· == ch)).Pairwise fun begins begins' =>
      ∀ s, begins s → ¬ begins' s :=
  List.pairwise_map.mpr (h.imp fun hne _ hs => hs.not_char (beq_false_of_ne hne.symm))

theorem apart_expr : [tick, variableName, constant, natLit, compound].Pairwise (Apart source) := by
  have htick : Needs source (BeginsWith (· == '\'')) tick := ((needs_char '\'').andThen.lexeme).map _
  have hnatLit : Needs source (BeginsWith isDigit) natLit := (needs_digits.lexeme.refine).map _
  refine pairwise_apart (.cons htick (.cons (needs_varName.map _) (.cons ((needs_keywordTable _).map _)
    (.cons hnatLit (.cons (needs_parensLocated _) .nil))))) ?_
  simp only [List.pairwise_cons, List.forall_mem_cons, List.not_mem_nil, false_imp_iff, implies_true,
    List.Pairwise.nil, and_true]
  refine ⟨⟨?tickName, ?tickConstant, ?tickNumeral, ?tickList⟩,
    ⟨?nameConstant, ?nameNumeral, ?nameList⟩, ⟨?constantNumeral, ?constantList⟩, ?numeralList⟩
  case tickName => exact fun s hquote hword => hword.beginsWith.not_char (by decide) hquote
  case tickConstant => exact fun s hquote hword => hword.beginsWith.not_char (by decide) hquote
  case tickNumeral => exact fun s hquote hdigit => hdigit.not_char (by decide) hquote
  case tickList => exact fun s hquote => hquote.not_char (by decide)
  case nameConstant =>
    exact fun s h => h.not fun name hfree hne => hne (lookup_eq_none_of_isFreeName hfree).1
  case nameNumeral => exact fun s h => h.beginsWith.not_digit
  case nameList => exact fun s h => h.beginsWith.not_char (by decide)
  case constantNumeral => exact fun s h => h.beginsWith.not_digit
  case constantList => exact fun s h => h.beginsWith.not_char (by decide)
  case numeralList => exact fun s h => h.not_char (by decide)

theorem apart_body :
    [dispatch headTable headBody, application].Pairwise (Apart source) := by
  refine List.pairwise_pair.mpr ((needs_keywordTable headTable).bind.apart needs_application ?_)
  rintro s ⟨name, hname, hhead⟩ hnot
  obtain ⟨head, hlookup⟩ := Option.ne_none_iff_exists'.mp hhead
  exact hnot ⟨name, hname, reserved_of_lookup_head hlookup⟩

/-- A command and an expression both start with a parenthesis.  Which of the two may come is decided by
the word after it, and the trivia before that word are the same for both. -/
theorem apart_topLevel : [parensLocated skip (dispatch commandTable commandBody),
    expr.map fun e => (⟨e.loc, .expr e⟩ : TopLevel)].Pairwise (Apart source) := by
  refine List.pairwise_pair.mpr fun k c => ?_
  by_cases hopen : BeginsWith (· == '(') c.rest
  · obtain ⟨ch, hch, hparen⟩ := hopen
    obtain rfl := eq_of_beq hparen
    obtain ⟨r, hr⟩ := List.head?_eq_some_iff.mp hch
    obtain ⟨c₁, hskip⟩ := exists_returns_skip source k (c.skip ['('])
    by_cases hword : BeginsWithWord (fun name => commandTable.lookup name ≠ none) c₁.rest
    · obtain ⟨name, hname, hcommand⟩ := hword
      obtain ⟨command, hlookup⟩ := Option.ne_none_iff_exists'.mp hcommand
      exact Or.inr (Declines.map _ (declines_expr_of_command hr hskip hname hlookup))
    · exact Or.inl (Declines.parensLocated_inside hr hskip
        (Declines.bind (needs_keywordTable commandTable k c₁ hword)))
  · exact Or.inl (needs_parensLocated _ k c hopen)

theorem apart_datum :
    [ignored (parens skip innerDatum.many), ignored identifier, ignored digits].Pairwise
      (Apart source) := by
  refine pairwise_apart (.cons ((needs_parens _).map _) (.cons (needs_identifier.map _)
    (.cons (needs_digits.map _) .nil))) ?_
  simp only [List.pairwise_cons, List.forall_mem_cons, List.not_mem_nil, false_imp_iff, implies_true,
    List.Pairwise.nil, and_true]
  exact ⟨⟨fun s hopen hword => hword.not_char (by decide) hopen,
    fun s hopen hdigit => hdigit.not_char (by decide) hopen⟩, fun s hword => hword.not_digit⟩

/-- A sign is no initial character. -/
theorem apart_identifier : [normalIdentifier, peculiarIdentifier].Pairwise (Apart source) := by
  have hnormal : Needs source (BeginsWith isInitial) normalIdentifier := by
    refine fun k c hc => Declines.named _ (Declines.bind (Declines.of_eval fun v hv => ?_))
    rw [show v = [] from hv, Cursor.before_nil]
    exact readChar_of_head _ (head_of_not_beginsWith hc)
  have hsign : ∀ (ch : Char) {s : Text}, s.head? = some ch → isInitial ch = false →
      Needs source (BeginsWith fun ch => !isInitial ch) (.text s : PieParser Text) := by
    refine fun ch s hhead hinitial k c hc => needs_text hhead k c fun ⟨ch', hch', heq⟩ => hc ?_
    obtain rfl := eq_of_beq heq
    exact ⟨ch', hch', by simp [hinitial]⟩
  have hpeculiar : Needs source (BeginsWith fun ch => !isInitial ch) peculiarIdentifier := by
    refine fun k c hc => Declines.named _ (Declines.bind (Declines.choice fun p hp => ?_))
    simp only [List.mem_cons, List.not_mem_nil, or_false] at hp
    rcases hp with rfl | rfl | rfl
    · exact hsign '+' (by decide) (by decide) k c hc
    · exact hsign '-' (by decide) (by decide) k c hc
    · exact hsign '.' (by decide) (by decide) k c hc
  exact List.pairwise_pair.mpr (hnormal.apart hpeculiar fun s h => h.not fun ch hch => by simp [hch])

theorem apart_sign :
    [.text "+".toList, .text "-".toList, .text "...".toList].Pairwise (Apart source) :=
  pairwise_apart (.cons (needs_text (by decide)) (.cons (needs_text (by decide))
    (.cons (needs_text (by decide)) .nil))) (pairwise_beginsWith (by decide : ['+', '-', '.'].Nodup))

theorem apart_triviaItem : (whitespace.map (fun ch => ignored (.char ch))
    ++ [lineComment, datumComment skip innerDatum]).Pairwise (Apart source) := by
  have hwhite : ∀ ch, Needs source (BeginsWith (· == ch)) (ignored (.char ch)) :=
    fun ch => (needs_char ch).map _
  have hline : Needs source (BeginsWith (· == ';')) lineComment :=
    ((needs_char ';').andThen.andThen).describe _
  have hcomment : Needs source (BeginsWith (· == '#')) (datumComment skip innerDatum) :=
    ((needs_text (by decide)).lexeme.andThen).map _
  exact pairwise_apart (.cons (hwhite _) (.cons (hwhite _) (.cons (hwhite _) (.cons (hwhite _)
    (.cons hline (.cons hcomment .nil))))))
      (pairwise_beginsWith (by decide : (whitespace ++ [';', '#']).Nodup))

theorem apart_commentEnd : [ignored (.char '\n'), .eof].Pairwise (Apart source) := by
  have heof : Needs source (· = []) .eof := by
    refine fun k c hc => Declines.of_eval fun v hv => ⟨⟨c.pos, .endOfInput⟩, ?_⟩
    rw [show v = [] from hv, Cursor.before_nil]
    exact if_neg (by simpa [Cursor.atEnd] using hc)
  refine List.pairwise_pair.mpr (((needs_char '\n').map _).apart heof ?_)
  rintro s ⟨ch, hch, -⟩ rfl
  cases hch

/-- In every choice at most one alternative does not fail, unless it is cut off. -/
theorem Choice.pairwise_apart {ps : List (PieParser α)} (h : Choice ps) :
    ps.Pairwise (Apart source) := by
  cases h with
  | expr => exact apart_expr
  | body => exact apart_body
  | topLevel => exact apart_topLevel
  | datum => exact apart_datum
  | identifier => exact apart_identifier
  | sign => exact apart_sign
  | triviaItem => exact apart_triviaItem
  | commentEnd => exact apart_commentEnd

/-- What is tried after something else fails wherever that does not. -/
theorem Alternatives.apart (h : Alternatives p q) : Apart source p q := by
  cases h with
  | description p e => exact fun k c => Or.inr (Declines.of_eval fun _ _ => ⟨_, rfl⟩)
  | @choice p q ps qs hc =>
      have hpairs : ((p :: ps) ++ q :: qs).Pairwise (Apart source) := hc.pairwise_apart
      obtain ⟨-, -, hapart⟩ := List.pairwise_append.mp hpairs
      intro k c
      by_cases hq : Declines (rules.call source k) source (.empty True) q c
      · exact Or.inr hq
      · have hall : ∀ r ∈ p :: ps, Declines (rules.call source k) source (.empty True) r c :=
          fun r hr => (hapart r hr q List.mem_cons_self k c).resolve_right hq
        exact Or.inl (Settles.congr (Declines.choice hall) (eval_choice_eq_foldl p ps))

/-! ## Keywords after a parenthesis -/

/-- At the first cursor a parenthesis is opened, and the word comes next after it, at the second. -/
structure OpensWith (c c₁ : Cursor) (name : Text) : Prop where
  opens : ∃ r, c.rest = '(' :: r
  gap : (c.skip ['(']).Gap c₁
  word : wordPrefix c₁.rest = some name

variable {name : Text} {head : Head} {command : Command}

theorem OpensWith.returns_skip (h : OpensWith c c₁ name) :
    Returns (rules.call source k) source (.empty True) skip (c.skip ['(']) () c₁ := by
  obtain ⟨-, hgap, hname⟩ := h
  have hbegins : BeginsWithWord (fun _ => True) c₁.rest := ⟨name, hname, trivial⟩
  obtain ⟨ch, hch, hstart⟩ := hbegins.beginsWith
  refine returns_skip_of_gap hgap fun ch' hch' => ?_
  obtain rfl := Option.mem_unique hch hch'
  exact startsTrivia_of_isWordStart hstart

/-- What comes after a keyword is not applied. -/
theorem declines_application_of_head (hname : wordPrefix c₁.rest = some name)
    (hlookup : headTable.lookup name = some head) :
    Declines (rules.call source k) source (.empty True) application c₁ :=
  needs_application k c₁ fun hnot => hnot ⟨name, hname, reserved_of_lookup_head hlookup⟩

/-- A keyword form of which the production fails is no expression. -/
theorem declines_expr_of_head (h : OpensWith c c₁ name) (hlookup : headTable.lookup name = some head)
    (hbody : Declines (rules.call source k) source (.empty True) (dispatch headTable headBody) c₁) :
    Declines (rules.call source k) source (.empty True) expr c := by
  obtain ⟨r, hr⟩ := h.opens
  have hcompound : Declines (rules.call source k) source (.empty True) compound c :=
    Declines.parensLocated_inside hr h.returns_skip
      (Declines.orElse hbody (declines_application_of_head h.word hlookup))
  exact declines_expr_open hr hcompound

/-- Nor is it a top-level form, since no command has the keyword. -/
theorem declines_topLevel_of_head (h : OpensWith c c₁ name)
    (hlookup : headTable.lookup name = some head)
    (hbody : Declines (rules.call source k) source (.empty True) (dispatch headTable headBody) c₁) :
    Declines (rules.call source k) source (.empty True) topLevel c := by
  obtain ⟨r, hr⟩ := h.opens
  have hcommand : commandTable.lookup name = none := lookup_command_of_head hlookup
  exact Declines.orElse
    (Declines.parensLocated_inside hr h.returns_skip
      (Declines.bind (declines_keywordTable_of_lookup h.word hcommand)))
    (Declines.map _ (declines_expr_of_head h hlookup hbody))

/-- A form with the keyword of a command is no expression. -/
theorem OpensWith.declines_expr (h : OpensWith c c₁ name)
    (hlookup : commandTable.lookup name = some command) :
    Declines (rules.call source k) source (.empty True) expr c := by
  obtain ⟨r, hr⟩ := h.opens
  exact declines_expr_of_command hr h.returns_skip h.word hlookup

end Grammar

end PieSyntax
