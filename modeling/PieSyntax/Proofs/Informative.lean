import PieSyntax.Proofs.Deepest
import PieSyntax.Proofs.Progress

/-!
# No report says nothing

A word that is not in a table of keywords is rejected with a payload that says nothing, because some
other alternative explains the matter.  Here it is shown that one always does.

`Informs p` says that all failures of `p` say something, and `InformsAfter p` that those do which are
not silent ones at the start.  An alternative that informs makes up for a silent one that is tried at
the same place, and so does the name of a production.

One silent failure does not stand where its alternative started: a bracket that holds no command fails
after its opening parenthesis.  But then an expression is tried on the same bracket, and gets at least
as far.

## Main results

* `Grammar.informs_expr`, `Grammar.informs_topLevel` — expressions and forms inform.
* `reports_inform` — every report that is not about nesting says what was expected, or that the input
  ended.
-/

namespace PieSyntax

variable {ceiling : Nat}

/-! ## Payloads and failures -/

/-- The payload says something: that the input ended, or at least one thing that was expected. -/
def Expectation.Informs : Expectation → Prop
  | .generic => False
  | .expected literals descriptions => (∃ l, l ∈ literals) ∨ ∃ d, d ∈ descriptions
  | .endOfInput => True

namespace Expectation

variable {e e' : Expectation}

theorem informs_ofDescription (d : String) : (ofDescription d).Informs :=
  Or.inr ⟨d, by simp⟩

theorem informs_ofChar (ch : Char) : (ofChar ch).Informs :=
  Or.inl ⟨String.singleton ch, by simp⟩

theorem Informs.merge (h : e.Informs) (h' : e'.Informs) : (e.merge e').Informs := by
  cases e with
  | generic => exact h.elim
  | endOfInput =>
      cases e' with
      | generic => exact h'.elim
      | endOfInput => exact trivial
      | expected l₂ d₂ => exact h'
  | expected l₁ d₁ =>
      cases e' with
      | generic => exact h'.elim
      | endOfInput => exact h
      | expected l₂ d₂ =>
          rcases h with ⟨l, hl⟩ | ⟨d, hd⟩
          · exact Or.inl ⟨l, Std.ExtTreeSet.mem_union_iff.mpr (Or.inl hl)⟩
          · exact Or.inr ⟨d, Std.ExtTreeSet.mem_union_iff.mpr (Or.inl hd)⟩

/-- What says something names something. -/
theorem items_ne_nil {literals descriptions : Std.ExtTreeSet String}
    (h : (expected literals descriptions).Informs) : items literals descriptions ≠ [] := by
  rcases h with ⟨l, hl⟩ | ⟨d, hd⟩
  · have hmem : quoted l ∈ items literals descriptions :=
      List.mem_append_left _ (List.mem_map_of_mem (Std.ExtTreeSet.mem_toList.mpr hl))
    exact List.ne_nil_of_mem hmem
  · have hmem : d ∈ items literals descriptions :=
      List.mem_append_right _ (Std.ExtTreeSet.mem_toList.mpr hd)
    exact List.ne_nil_of_mem hmem

/-- What says something is not written as a bare error. -/
theorem Informs.describe_ne (h : e.Informs) : e.describe ≠ "parse error" := by
  cases e with
  | generic => exact h.elim
  | endOfInput => decide
  | expected literals descriptions =>
      rw [Expectation.describe]
      split
      · rename_i hnil
        exact absurd hnil (items_ne_nil h)
      · intro heq
        have hhead := congrArg (fun s => s.toList.head?) heq
        simp at hhead

end Expectation

namespace Failure

variable {f g : Failure} {p : Position}

/-- The failure says something. -/
def Informs (f : Failure) : Prop := f.expectation.Informs

/-- The failure says something, unless it is a silent one at `p`. -/
def InformsAfter (p : Position) (f : Failure) : Prop := f.Informs ∨ f = ⟨p, .generic⟩

theorem Informs.furthest (hf : f.Informs) (hg : g.Informs) : (f.furthest g).Informs := by
  rcases Position.lt_trichotomy f.pos g.pos with hlt | heq | hgt
  · rw [furthest_of_lt hlt]
    exact hg
  · rw [furthest_of_pos_eq heq]
    exact Expectation.Informs.merge hf hg
  · rw [furthest_of_gt hgt]
    exact hf

/-- A failure that says something drowns out a silent one that stands no further on. -/
theorem InformsAfter.furthest (hf : f.InformsAfter p) (hg : g.Informs) (hle : p ≤ g.pos) :
    (f.furthest g).Informs := by
  rcases hf with hf | rfl
  · exact hf.furthest hg
  · rcases hle with hlt | rfl
    · rw [furthest_of_lt hlt]
      exact hg
    · rw [furthest_of_pos_eq (f := ⟨g.pos, .generic⟩) (g := g) rfl]
      simpa [Informs] using hg

theorem InformsAfter.furthest_after (hf : f.InformsAfter p) (hg : g.InformsAfter p) :
    (f.furthest g).InformsAfter p := by
  rcases hf with hf | rfl
  · rcases hg with hg | rfl
    · exact Or.inl (hf.furthest hg)
    · rcases Position.lt_trichotomy f.pos p with hlt | heq | hgt
      · exact Or.inr (furthest_of_lt hlt)
      · rw [furthest_of_pos_eq heq]
        exact Or.inl (by simpa [Informs] using hf)
      · rw [furthest_of_gt hgt]
        exact Or.inl hf
  · rcases hg with hg | rfl
    · rcases Position.lt_trichotomy p g.pos with hlt | heq | hgt
      · rw [furthest_of_lt hlt]
        exact Or.inl hg
      · rw [furthest_of_pos_eq heq]
        exact Or.inl (by simpa [Informs] using hg)
      · exact Or.inr (furthest_of_gt hgt)
    · exact Or.inr (furthest_self _)

end Failure

/-! ## Parsers -/

namespace Parser

variable {N : Type} {R : N → Type} {α β : Type}

section

variable (call : (n : N) → Cursor → Outcome (R n)) (source : String)

/-- Whatever failure the parser ends with says something. -/
def Informs (p : Parser N R α) : Prop :=
  ∀ c f, p.eval call source c = .fail f → f.Informs

/-- Whatever failure the parser ends with says something, unless it is a silent one at the start. -/
def InformsAfter (p : Parser N R α) : Prop :=
  ∀ c f, p.eval call source c = .fail f → f.InformsAfter c.pos

end

variable {call : (n : N) → Cursor → Outcome (R n)} {source : String} {p q : Parser N R α}

theorem informs_of_readChar {test : Char → Bool} {e : Expectation} {c : Cursor} {f : Failure}
    (he : e.Informs) (h : c.readChar test e = .fail f) : f.Informs := by
  obtain ⟨-, hend | hpayload⟩ := readChar_fail h
  · rw [Failure.Informs, hend]
    exact trivial
  · rw [Failure.Informs, hpayload]
    exact he

theorem informs_char (ch : Char) : Informs call source (.char ch : Parser N R Char) :=
  fun _ _ h => informs_of_readChar (Expectation.informs_ofChar ch) h

theorem informs_satisfy (description : String) (test : Char → Bool) :
    Informs call source (.satisfy description test : Parser N R Char) :=
  fun _ _ h => informs_of_readChar (Expectation.informs_ofDescription description) h

theorem informs_of_readText {s : Text} {c : Cursor} {f : Failure} (h : c.readText s = .fail f) :
    f.Informs := by
  induction s generalizing c with
  | nil => cases h
  | cons ch s ih =>
      rw [Cursor.readText] at h
      cases hread : c.readChar (· = ch) (.ofChar ch) with
      | ok a d => rw [hread] at h; exact ih h
      | fail g =>
          rw [hread] at h
          cases h
          exact informs_of_readChar (Expectation.informs_ofChar ch) hread
      | interrupted why => rw [hread] at h; cases h

theorem informs_text (s : Text) : Informs call source (.text s : Parser N R Text) := by
  intro c f h
  rw [Parser.eval] at h
  cases hread : c.readText s with
  | ok a d => rw [hread] at h; cases h
  | fail g => rw [hread] at h; cases h; exact informs_of_readText hread
  | interrupted why => rw [hread] at h; cases h

theorem informs_eof : Informs call source (.eof : Parser N R Unit) := by
  intro c f h
  rw [Parser.eval] at h
  split at h
  · cases h
  · cases h
    exact trivial

/-! ### One part after the other -/

theorem Informs.after (h : Informs call source p) : InformsAfter call source p :=
  fun c f hfail => Or.inl (h c f hfail)

theorem Informs.bind {next : α → Parser N R β} (h : Informs call source p)
    (hnext : ∀ a, Informs call source (next a)) : Informs call source (p.bind next) := by
  intro c f hfail
  rcases eval_bind_fail hfail with hp | ⟨a, d, -, hrest⟩
  · exact h c f hp
  · exact hnext a d f hrest

theorem InformsAfter.bind {next : α → Parser N R β} (h : InformsAfter call source p)
    (hnext : ∀ a, Informs call source (next a)) : InformsAfter call source (p.bind next) := by
  intro c f hfail
  rcases eval_bind_fail hfail with hp | ⟨a, d, -, hrest⟩
  · exact h c f hp
  · exact Or.inl (hnext a d f hrest)

/-- A judge who says why a value is rejected. -/
theorem Informs.refine {judge : α → Verdict β} (h : Informs call source p)
    (hjudge : ∀ a e, judge a = .reject e → e.Informs) : Informs call source (p.refine judge) := by
  intro c f hfail
  rcases eval_refine_fail hfail with hp | ⟨a, d, e, -, hj, rfl⟩
  · exact h c f hp
  · exact hjudge a e hj

theorem Informs.map (g : α → β) (h : Informs call source p) : Informs call source (p.map g) :=
  h.refine fun a e hj => by cases hj

theorem InformsAfter.map (g : α → β) (h : InformsAfter call source p) :
    InformsAfter call source (p.map g) :=
  fun c f hfail => h c f (eval_map_fail hfail)

theorem Informs.guard {test : α → Bool} {e : Expectation} (he : e.Informs)
    (h : Informs call source p) : Informs call source (p.guard test e) := by
  refine h.refine fun a e' hj => ?_
  split at hj
  · cases hj
  · cases hj
    exact he

theorem Informs.located (h : Informs call source p) : Informs call source p.located :=
  fun c f hfail => h c f (eval_located_fail hfail)

theorem Informs.named (name : String) (h : Informs call source p) :
    Informs call source (.named name p) := h

theorem Informs.andThen {r : Parser N R β} (h : Informs call source p)
    (hr : Informs call source r) : Informs call source (p.andThen r) :=
  Informs.named _ (h.bind fun _ => hr)

theorem Informs.followedBy {r : Parser N R β} (h : Informs call source p)
    (hr : Informs call source r) : Informs call source (p.followedBy r) :=
  Informs.named _ (h.bind fun _ => hr.map _)

/-! ### Choices and repetitions -/

theorem Informs.orElse (hp : Informs call source p) (hq : Informs call source q) :
    Informs call source (p.orElse q) := by
  intro c f hfail
  obtain ⟨g₁, g₂, h₁, h₂, rfl⟩ := eval_orElse_fail hfail
  exact (hp c g₁ h₁).furthest (hq c g₂ h₂)

theorem InformsAfter.orElse_after (hp : InformsAfter call source p)
    (hq : InformsAfter call source q) : InformsAfter call source (p.orElse q) := by
  intro c f hfail
  obtain ⟨g₁, g₂, h₁, h₂, rfl⟩ := eval_orElse_fail hfail
  exact (hp c g₁ h₁).furthest_after (hq c g₂ h₂)

theorem InformsAfter.choice {ps : List (Parser N R α)} (hne : ps ≠ [])
    (h : ∀ p ∈ ps, InformsAfter call source p) : InformsAfter call source (choice ps) := by
  cases ps with
  | nil => exact absurd rfl hne
  | cons p ps =>
      have hfold : InformsAfter call source (ps.foldl .orElse p) :=
        List.foldlRecOn ps _ (h p List.mem_cons_self) fun q hq r hr =>
          hq.orElse_after (h r (List.mem_cons_of_mem p hr))
      exact fun c f hfail => hfold c f (eval_choice_eq_foldl p ps ▸ hfail)

/-- The name of a production is expected where it starts. -/
theorem InformsAfter.describe (description : String) (h : InformsAfter call source p) :
    Informs call source (p.describe description) := by
  intro c f hfail
  obtain ⟨g, hg, rfl⟩ := eval_describe_fail hfail
  exact (h c g hg).furthest (Expectation.informs_ofDescription description) (Or.inr rfl)

section

variable (hcall : ∀ n c, (call n c).AheadOf c)

include hcall

/-- An alternative that informs makes up for a silent one before it. -/
theorem InformsAfter.orElse (hp : InformsAfter call source p) (hq : Informs call source q) :
    Informs call source (p.orElse q) := by
  intro c f hfail
  obtain ⟨g₁, g₂, h₁, h₂, rfl⟩ := eval_orElse_fail hfail
  have hahead := eval_reaches hcall source q c
  rw [h₂] at hahead
  obtain ⟨d, hreach, hpos⟩ := hahead
  exact (hp c g₁ h₁).furthest (hq c g₂ h₂) (hpos ▸ hreach.pos_le)

theorem informs_many (p : Parser N R α) : Informs call source p.many :=
  fun c f hfail => absurd hfail (eval_many_ne_fail hcall p c f)

theorem Informs.many1 (h : Informs call source p) : Informs call source p.many1 :=
  Informs.named _ (h.bind fun _ => (informs_many hcall p).map _)

theorem Informs.manyTill {stop : Parser N R β} (h : Informs call source p)
    (hstop : Informs call source stop) : Informs call source (p.manyTill stop) := by
  intro c f hfail
  induction c using Cursor.forward_induction with
  | step c ih =>
      obtain ⟨g, hg, ⟨g', hg', rfl⟩ | ⟨a, d, -, hlt, hrest⟩⟩ := eval_manyTill_fail hcall hfail
      · exact (hstop c g hg).furthest (h c g' hg')
      · exact ih d hlt hrest

end

end Parser

/-! ## The grammar -/

namespace Grammar

open PieSyntax.Parser

variable {source : String} {k : Nat} {α β : Type} {p : PieParser α}

theorem informs_identifier : Informs (rules.call source k) source (identifier : PieParser Text) := by
  have hmany : ∀ (g : List Char → Text), Informs (rules.call source k) source
      ((Parser.satisfy "identifier subsequent character" isSubsequent).many.map g) :=
    fun g => (informs_many (rules.call_reaches source k) _).map g
  have hsign : Informs (rules.call source k) source
      (Parser.choice [.text "+".toList, .text "-".toList, .text "...".toList]) := by
    intro c f hfail
    rw [eval_choice_eq_foldl] at hfail
    exact ((informs_text _).orElse (informs_text _)).orElse (informs_text _) c f hfail
  refine Informs.orElse (Informs.named _ ((informs_satisfy _ _).bind fun _ => hmany _)) ?_
  exact Informs.named _ (hsign.bind fun _ => hmany _)

theorem informs_digits : Informs (rules.call source k) source (digits : PieParser Text) :=
  InformsAfter.describe _
    (Informs.many1 (rules.call_reaches source k) (informs_satisfy _ _)).after

theorem informs_skip : Informs (rules.call source k) source skip :=
  fun _ _ hfail => absurd hfail eval_skip_ne_fail

theorem informs_trivia : Informs (rules.call source k) source trivia :=
  fun _ _ hfail => absurd hfail eval_trivia_ne_fail

theorem informs_lexeme (h : Informs (rules.call source k) source p) :
    Informs (rules.call source k) source (lexeme skip p) :=
  h.located.followedBy informs_skip

theorem informs_parens (h : Informs (rules.call source k) source p) :
    Informs (rules.call source k) source (parens skip p) :=
  ((informs_lexeme (informs_char '(')).andThen h).followedBy (informs_lexeme (informs_char ')'))

/-- What comes after an opening parenthesis: the inside and the closing one. -/
theorem informs_close (opening : Located Char) (value : α) : Informs (rules.call source k) source
    ((lexeme skip (.char ')')).refine fun closing : Located Char =>
      match opening.loc.join closing.loc with
      | .ok loc => .accept (⟨loc, value⟩ : Located α)
      | .error mismatch => .interrupt (.sourceMismatch mismatch)) := by
  refine Informs.refine (informs_lexeme (informs_char ')')) fun closing e hj => ?_
  split at hj <;> cases hj

theorem informs_parensLocated (h : Informs (rules.call source k) source p) :
    Informs (rules.call source k) source (parensLocated skip p) :=
  Informs.named _ ((informs_lexeme (informs_char '(')).bind fun opening =>
    h.bind fun value => informs_close opening value)

/-- A bracket whose inside may fail silently does so after its opening parenthesis. -/
theorem informs_of_eval_parensLocated {c : Cursor} {f : Failure}
    (h : InformsAfter (rules.call source k) source p)
    (hfail : (parensLocated skip p).eval (rules.call source k) source c = .fail f) :
    f.Informs ∨ ∃ x c₁, opening.eval (rules.call source k) source c = .ok x c₁ ∧
      f = ⟨c₁.pos, .generic⟩ := by
  rcases eval_bind_fail hfail with hopen | ⟨x, c₁, hopen, hinside⟩
  · exact Or.inl (informs_lexeme (informs_char '(') c f hopen)
  · rcases (h.bind fun value => informs_close x value) c₁ f hinside with hinforms | hsilent
    · exact Or.inl hinforms
    · exact Or.inr ⟨x, c₁, hopen, hsilent⟩

/-- A word that is not in the table is rejected silently, where it starts. -/
theorem informsAfter_keywordTable (table : List (Text × β)) :
    InformsAfter (rules.call source k) source (keywordTable skip table) := by
  intro c f hfail
  rcases eval_refine_fail hfail with hword | ⟨token, d, e, -, hj, rfl⟩
  · exact Or.inl (informs_lexeme informs_identifier c f hword)
  · cases hlookup : table.lookup token.value with
    | some entry => rw [hlookup] at hj; cases hj
    | none =>
        rw [hlookup] at hj
        cases hj
        exact Or.inr rfl

theorem informs_natural : Informs (rules.call source k) source (natural skip) := by
  refine Informs.refine (informs_lexeme informs_digits) fun token e hj => ?_
  split at hj <;> cases hj

theorem informs_varName : Informs (rules.call source k) source varName :=
  InformsAfter.describe _ (Informs.guard (Expectation.informs_ofDescription _)
    (informs_lexeme informs_identifier)).after

theorem informs_binders : Informs (rules.call source k) source binders :=
  informs_parens ((informs_varName.map _).many1 (rules.call_reaches source k))

section

variable (hcalls : Informs (rules.call source k) source innerExpr)

include hcalls

theorem informs_typedBinders : Informs (rules.call source k) source typedBinders :=
  informs_parens ((informs_parens (Informs.named _
    (informs_varName.bind fun _ => hcalls.map _))).many1 (rules.call_reaches source k))

theorem informs_arguments (n : Nat) : Informs (rules.call source k) source (arguments n) := by
  induction n with
  | zero => exact fun c f hfail => by cases hfail
  | succ n ih => exact hcalls.bind fun _ => ih.map _

theorem informs_headBody (head : Head) : Informs (rules.call source k) source (headBody head) := by
  have hcall := rules.call_reaches source k
  refine Informs.named _ ?_
  cases head with
  | form f => exact (informs_arguments hcalls f.arity).map _
  | lambda => exact informs_binders.bind fun _ => hcalls.map _
  | quantifier q => exact (informs_typedBinders hcalls).bind fun _ => hcalls.map _
  | arrow => exact hcalls.bind fun _ => (hcalls.many1 hcall).map _

theorem informs_commandBody (command : Command) :
    Informs (rules.call source k) source (commandBody command) := by
  refine Informs.named _ ?_
  cases command with
  | claim => exact informs_varName.bind fun _ => hcalls.map _
  | define => exact informs_varName.bind fun _ => hcalls.map _
  | checkSame => exact hcalls.bind fun _ => hcalls.bind fun _ => hcalls.map _

theorem informs_application : Informs (rules.call source k) source application :=
  Informs.named _ (hcalls.bind fun _ => (hcalls.many1 (rules.call_reaches source k)).map _)

/-- In a compound expression the application makes up for the keywords that are not there. -/
theorem informs_compound : Informs (rules.call source k) source compound :=
  informs_parensLocated (((informsAfter_keywordTable _).bind fun entry =>
    informs_headBody hcalls entry.value).orElse (rules.call_reaches source k)
      (informs_application hcalls))

theorem informs_expr_of_calls : Informs (rules.call source k) source expr := by
  refine InformsAfter.describe _ (InformsAfter.choice (by simp) fun p hp => ?_)
  simp only [List.mem_cons, List.not_mem_nil, or_false] at hp
  rcases hp with rfl | rfl | rfl | rfl | rfl
  · exact ((informs_lexeme ((informs_char '\'').andThen informs_identifier)).map _).after
  · exact (informs_varName.map _).after
  · exact (informsAfter_keywordTable _).map _
  · exact (informs_natural.map _).after
  · exact (informs_compound hcalls).after

end

/-- Expressions that are called inform, under any ceiling. -/
theorem informs_innerExpr (source : String) (k : Nat) :
    Informs (rules.call source k) source innerExpr := by
  induction k with
  | zero => exact fun c f hfail => by cases hfail
  | succ k ih => exact informs_expr_of_calls ih

theorem informs_expr : Informs (rules.call source k) source expr :=
  informs_expr_of_calls (informs_innerExpr source k)

/-- An expression that fails at a bracket has got past its opening parenthesis. -/
theorem pos_le_of_eval_expr_open {c c₁ : Cursor} {x : Located Char} {f : Failure}
    (hopen : opening.eval (rules.call source k) source c = .ok x c₁)
    (hfail : expr.eval (rules.call source k) source c = .fail f) : c₁.pos ≤ f.pos := by
  obtain ⟨f', hchoice, rfl⟩ := eval_describe_fail hfail
  obtain ⟨g, hg, hle⟩ := exists_fail_of_eval_choice hchoice compound (by simp)
  have hle' : f'.pos ≤ (f'.furthest ⟨c.pos, .ofDescription "expression"⟩).pos := by
    rw [Failure.furthest_comm]
    exact Failure.pos_le_furthest _ f'
  refine Position.le_trans (Position.le_trans ?_ hle) hle'
  rcases eval_bind_fail hg with hnone | ⟨y, c₂, hopen', hinside⟩
  · cases hnone.symm.trans hopen
  · cases hopen'.symm.trans hopen
    exact pos_le_of_eval_fail hinside

/-- Where a bracket holds no command, the expression that is tried on it makes up for that. -/
theorem informs_topLevel : Informs (rules.call source k) source topLevel := by
  intro c f hfail
  obtain ⟨g₁, g₂, hcommand, hexpr, rfl⟩ := eval_orElse_fail hfail
  have hinforms := informs_expr c g₂ (eval_map_fail hexpr)
  have hdispatch : InformsAfter (rules.call source k) source (dispatch commandTable commandBody) :=
    (informsAfter_keywordTable _).bind fun entry =>
      informs_commandBody (informs_innerExpr source k) entry.value
  rcases informs_of_eval_parensLocated hdispatch hcommand with h₁ | ⟨x, c₁, hopen, h₁⟩
  · exact h₁.furthest hinforms
  · have hle := pos_le_of_eval_expr_open hopen (eval_map_fail hexpr)
    exact Failure.InformsAfter.furthest (Or.inr h₁) hinforms hle

/-- What the readers run informs. -/
theorem Started.informs {p : PieParser α} (h : Started p) :
    Informs (rules.call source k) source p := by
  have hcall := rules.call_reaches source k
  have hexpr : Informs (rules.call source k) source (Grammar.trivia.andThen expr) :=
    informs_trivia.andThen informs_expr
  cases h with
  | program =>
      exact ((informs_text _).andThen informs_trivia).andThen
        (informs_topLevel.manyTill hcall informs_eof)
  | expression allowTrailing =>
      cases allowTrailing with
      | true => exact hexpr
      | false => exact hexpr.followedBy informs_eof
  | trivia => exact informs_trivia
  | topLevel => exact informs_topLevel

end Grammar

/-! ## Reports -/

/-- A report on a failure that says something is not a bare error. -/
theorem Report.message_ne {r : Report} (hdetail : r.detail = none) (h : r.failure.Informs) :
    r.message ≠ "parse error" := by
  rw [Report.message, hdetail]
  have hdescribe := Expectation.Informs.describe_ne h
  cases he : r.failure.expectation with
  | generic =>
      rw [Failure.Informs, he] at h
      exact h.elim
  | expected literals descriptions =>
      rw [he] at hdescribe
      exact hdescribe
  | endOfInput =>
      by_cases hbefore : r.beforeEnd = true
      · simp only [hbefore, if_true]
        decide
      · simp only [hbefore]
        decide

/-- Reports inform.  Whatever a reader reports without a reason from outside the grammar says that the
input ended or names something that was expected, and its message is not the bare placeholder. -/
theorem reports_inform (source : String) (text : Text) :
    (∀ (e : EntryPoint) r, e.read source text ceiling = .error (.report r) → r.detail = none →
      r.failure.expectation.Informs ∧ r.message ≠ "parse error") ∧
    ∀ r, (iterForms source text ceiling).ending = some (.report r) → r.detail = none →
      r.failure.expectation.Informs ∧ r.message ≠ "parse error" := by
  have hreport : ∀ {α : Type} {p : PieParser α} {c : Cursor} {r : Report}, Grammar.Started p →
      readFrom source text c p ceiling = .error (.report r) → r.detail = none →
        r.failure.expectation.Informs ∧ r.message ≠ "parse error" := by
    intro α p c r hp hread hdetail
    have hrun := run_of_readFrom hread (by rw [hdetail]; exact fun hnone => by cases hnone)
    have hinforms := hp.informs c r.failure hrun
    exact ⟨hinforms, Report.message_ne hdetail hinforms⟩
  constructor
  · intro e r hread hdetail
    exact hreport e.started (EntryPoint.read_eq_error_iff.mp hread) hdetail
  · intro r hend hdetail
    rcases (iterForms_sessionEnds source ceiling text).exists_readFrom hend with hread | ⟨d, -, hread⟩
    · exact hreport .trivia hread hdetail
    · exact hreport .topLevel hread hdetail

/-- An empty bracket holds no keyword, and what is reported is that an expression was expected. -/
theorem reports_emptyBracket : ∃ r,
    parseExpression "<memory>" "()".toList false = .error (.report r) ∧
      r.failure.expectation.Informs ∧ r.message ≠ "parse error" := by
  have hplain : isPlainReport (parseExpression "<memory>" "()".toList false) = true := by
    decide +kernel
  match hread : parseExpression "<memory>" "()".toList false with
  | .ok x => rw [hread] at hplain; cases hplain
  | .error (.interrupted why) => rw [hread] at hplain; cases hplain
  | .error (.report r) =>
      rw [hread] at hplain
      have hdetail : r.detail = none := Option.isNone_iff_eq_none.mp hplain
      exact ⟨r, rfl, (reports_inform "<memory>" "()".toList).1 (.expression false) r hread hdetail⟩

end PieSyntax
