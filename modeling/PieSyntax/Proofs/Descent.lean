import Mathlib.Order.Interval.Finset.Nat
import PieSyntax.Proofs.Ceiling
import PieSyntax.Proofs.Progress

/-!
# The descent is well founded

Productions call one another, and a datum comment runs the parser of a datum in place.  Whichever way
a production is entered while another one is active, characters have been read in between: all that a
parser of the grammar runs before it has read one is free of productions.

`Grammar.Sheltered` says this of a parser, by its parts.  The parts that come after a character was
read may be anything.  What a production runs is sheltered, or lies further on; so the productions that
are active at once stand at different places of the text, the later ones further on, and there are no
more of them than there are places.

## Main results

* `Grammar.Late.starts`, `Grammar.Late.visits` — one step, and any number of steps.
* `Grammar.offset_lt_of_enters` — a production that is entered within another one lies further on.
* `Grammar.IsStack.length_le` — how many productions can be active at once.
* `Task.Visits.exists_active` — what the levels of nesting have been spent on.
* `descent_wellFounded` — so every run ends, in the same way under every ceiling that does not cut it
  off.
-/

namespace PieSyntax

/-! ## Entering productions -/

/-- The task enters a nonterminal: it runs the parser that stands behind one. -/
def Task.Enters {N : Type} {R : N → Type} (rules : Rules N R) (t : Task N R) : Prop :=
  ∃ n, t = ⟨t.ceiling, rules n, t.cursor⟩

namespace Grammar

open PieSyntax.Parser

variable {source : String} {α β : Type} {p q : PieParser α}

/-- The parser calls a production, or its outermost layers are those of one. -/
def mayEnter : {α : Type} → PieParser α → Bool
  | _, .refine (.many _) _ => true
  | _, .refine (.named _ (.bind (.located (.alternatives (.alternatives _ _) _)) _)) _ => true
  | _, .named _ (.alternatives (.alternatives _ _) _) => true
  | _, .call _ => true
  | _, _ => false

theorem mayEnter_of_enters {t : Task Production Production.Result} (h : t.Enters rules) :
    mayEnter t.parser = true := by
  obtain ⟨n, ht⟩ := h
  rw [ht]
  cases n <;> rfl

/-- Before it has read a character the parser enters no production. -/
def Sheltered (source : String) : {α : Type} → PieParser α → Prop
  | _, .refine p judge => mayEnter (.refine p judge) = false ∧ Sheltered source p
  | _, .bind p next =>
    Sheltered source p ∧ ((∀ k, Consumes (rules.call source k) source p) ∨
      ∀ k c a d, rules.run k source p c = .ok a d → Sheltered source (next a))
  | _, .alternatives first rest => Sheltered source first ∧ ∀ i, Sheltered source (rest i)
  | _, .many p => Sheltered source p
  | _, .manyTill p stop => Sheltered source p ∧ Sheltered source stop
  | _, .located p => Sheltered source p
  | _, .named name p => mayEnter (.named name p) = false ∧ Sheltered source p
  | _, .call _ => False
  | _, _ => True

theorem Sheltered.mayEnter_eq (h : Sheltered source p) : mayEnter p = false := by
  cases p with
  | refine p judge => exact h.1
  | named name p => exact h.1
  | call n => exact h.elim
  | _ => rfl

/-! ## Sheltered parsers -/

/-- After a character was read, anything may come. -/
theorem Sheltered.bind {next : α → PieParser β} (h : Sheltered source p)
    (hp : ∀ k, Consumes (rules.call source k) source p) : Sheltered source (p.bind next) :=
  ⟨h, Or.inl hp⟩

theorem Sheltered.andThen {r : PieParser β} (h : Sheltered source p)
    (hp : ∀ k, Consumes (rules.call source k) source p) : Sheltered source (p.andThen r) :=
  ⟨rfl, h.bind hp⟩

theorem Sheltered.followedBy {r : PieParser β} (h : Sheltered source p)
    (hp : ∀ k, Consumes (rules.call source k) source p) : Sheltered source (p.followedBy r) :=
  ⟨rfl, h.bind hp⟩

theorem sheltered_lexeme (h : Sheltered source p)
    (hp : ∀ k, Consumes (rules.call source k) source p) : Sheltered source (lexeme skip p) :=
  Sheltered.followedBy (p := p.located) h fun k => (hp k).located

theorem sheltered_open : Sheltered source (lexeme skip (.char '(') : PieParser (Located Char)) :=
  sheltered_lexeme trivial fun _ => consumes_char '('

theorem sheltered_parens (p : PieParser α) : Sheltered source (parens skip p) :=
  (sheltered_open.andThen fun _ => consumes_open).followedBy fun k =>
    Consumes.named _ (consumes_open.bind (rules.call_reaches source k))

theorem sheltered_parensLocated (p : PieParser α) : Sheltered source (parensLocated skip p) :=
  ⟨rfl, sheltered_open.bind fun _ => consumes_open⟩

theorem Sheltered.orElse (hp : Sheltered source p) (hq : Sheltered source q) :
    Sheltered source (p.orElse q) :=
  ⟨hp, fun _ => hq⟩

theorem Sheltered.describe (description : String)
    (hm : mayEnter (p.describe description) = false) (h : Sheltered source p) :
    Sheltered source (p.describe description) :=
  ⟨hm, h.orElse trivial⟩

theorem Sheltered.choice {ps : List (PieParser α)} (h : ∀ p ∈ ps, Sheltered source p) :
    Sheltered source (choice ps) := by
  cases ps with
  | nil => exact trivial
  | cons p ps =>
      exact ⟨h p List.mem_cons_self, fun i => h _ (List.mem_cons_of_mem p (ps.get_mem i))⟩

theorem sheltered_identifier : Sheltered source (identifier : PieParser Text) := by
  have hsign : Sheltered source (choice [.text "+".toList, .text "-".toList, .text "...".toList] :
      PieParser Text) := by
    refine Sheltered.choice fun p hp => ?_
    simp only [List.mem_cons, List.not_mem_nil, or_false] at hp
    rcases hp with rfl | rfl | rfl <;> exact trivial
  have hreads : ∀ k, Consumes (rules.call source k) source
      (choice [.text "+".toList, .text "-".toList, .text "...".toList] : PieParser Text) := by
    intro k
    refine Consumes.choice fun p hp => ?_
    simp only [List.mem_cons, List.not_mem_nil, or_false] at hp
    rcases hp with rfl | rfl | rfl <;> exact consumes_text (by decide)
  exact Sheltered.orElse ⟨rfl, Sheltered.bind trivial fun _ => consumes_satisfy _ _⟩
    ⟨rfl, hsign.bind hreads⟩

theorem sheltered_digits : Sheltered source (digits : PieParser Text) :=
  Sheltered.describe _ rfl ⟨rfl, Sheltered.bind trivial fun _ => consumes_satisfy _ _⟩

theorem sheltered_word : Sheltered source (lexeme skip identifier) :=
  sheltered_lexeme sheltered_identifier fun _ => consumes_identifier

theorem sheltered_varName : Sheltered source varName :=
  Sheltered.describe _ rfl ⟨rfl, sheltered_word⟩

theorem sheltered_triviaItem : Sheltered source triviaItem := by
  refine Sheltered.choice fun p hp => ?_
  rcases List.mem_append.mp hp with hp | hp
  · obtain ⟨ch, -, rfl⟩ := List.mem_map.mp hp
    exact ⟨rfl, trivial⟩
  · simp only [List.mem_cons, List.not_mem_nil, or_false] at hp
    rcases hp with rfl | rfl
    · have hsemicolon : Sheltered source
          ((Parser.char ';').andThen (.spanning (· ≠ '\n')) : PieParser Text) :=
        Sheltered.andThen trivial fun _ => consumes_char ';'
      exact Sheltered.describe _ rfl (hsemicolon.andThen fun k =>
        Consumes.named _ ((consumes_char ';').bind (rules.call_reaches source k)))
    · have hmark : ∀ k, Consumes (rules.call source k) source
          (.text "#;".toList : PieParser Text) := fun _ => consumes_text (by decide)
      have hquiet : Sheltered source (.text "#;".toList : PieParser Text) := trivial
      exact ⟨rfl, (sheltered_lexeme hquiet hmark).andThen fun k =>
        consumes_lexeme (rules.call_reaches source k) (hmark k)⟩

theorem sheltered_datumItem : Sheltered source
    (((ignored (parens skip innerDatum.many)).orElse (ignored identifier)).orElse
      (ignored digits)) :=
  Sheltered.orElse (Sheltered.orElse ⟨rfl, sheltered_parens _⟩ ⟨rfl, sheltered_identifier⟩)
    ⟨rfl, sheltered_digits⟩

theorem sheltered_atoms :
    Sheltered source (choice [tick, variableName, constant, natLit, compound]) := by
  refine Sheltered.choice fun p hp => ?_
  simp only [List.mem_cons, List.not_mem_nil, or_false] at hp
  rcases hp with rfl | rfl | rfl | rfl | rfl
  · have hquoted : Sheltered source ((Parser.char '\'').andThen identifier : PieParser Text) :=
      Sheltered.andThen trivial fun _ => consumes_char '\''
    exact ⟨rfl, sheltered_lexeme hquoted fun k =>
      Consumes.named _ ((consumes_char '\'').bind (rules.call_reaches source k))⟩
  · exact ⟨rfl, sheltered_varName⟩
  · exact ⟨rfl, rfl, sheltered_word⟩
  · exact ⟨rfl, rfl, sheltered_lexeme sheltered_digits fun _ => consumes_digits⟩
  · exact sheltered_parensLocated _

/-! ## Going further on -/

/-- The task stands beyond the offset, or it stands there and its parser is sheltered. -/
def Late (source : String) (o : Nat) (t : Task Production Production.Result) : Prop :=
  o < t.cursor.offset ∨ o ≤ t.cursor.offset ∧ Sheltered source t.parser

variable {o k : Nat} {c : Cursor} {t u : Task Production Production.Result}

theorem Late.starts (h : Late source o t) (hstarts : Task.Starts rules source t u) :
    Late source o u := by
  have hforward := hstarts.reaches.offset_le
  rcases h with hlt | ⟨hle, hsheltered⟩
  · exact Or.inl (Nat.lt_of_lt_of_le hlt hforward)
  · have hwithin := Nat.le_trans hle hforward
    cases hstarts with
    | refine => exact Or.inr ⟨hwithin, hsheltered.2⟩
    | bindFirst => exact Or.inr ⟨hwithin, hsheltered.1⟩
    | @bindNext k α β p next c d a h =>
        rcases hsheltered.2 with hconsumes | hnext
        · have hreach := Rules.reaches_of_run h
          have hne := hreach.offset_ne (hconsumes k c a d h)
          have hle' := hreach.offset_le
          exact Or.inl (show o < d.offset by simp only at hle; omega)
        · exact Or.inr ⟨hwithin, hnext k c a d h⟩
    | firstAlternative => exact Or.inr ⟨hwithin, hsheltered.1⟩
    | alternative i h hs => exact Or.inr ⟨hwithin, hsheltered.2 i⟩
    | manyRound => exact Or.inr ⟨hwithin, hsheltered⟩
    | manyRest h hne => exact Or.inr ⟨hwithin, hsheltered⟩
    | manyTillStop => exact Or.inr ⟨hwithin, hsheltered.2⟩
    | manyTillRound hstop => exact Or.inr ⟨hwithin, hsheltered.1⟩
    | manyTillRest hstop h hne => exact Or.inr ⟨hwithin, hsheltered⟩
    | located => exact Or.inr ⟨hwithin, hsheltered⟩
    | named => exact Or.inr ⟨hwithin, hsheltered.2⟩
    | call => exact hsheltered.elim

theorem Late.visits (h : Late source o t) (hvisits : Task.Visits rules source t u) :
    Late source o u := by
  induction hvisits with
  | refl => exact h
  | tail _ hstarts ih => exact ih.starts hstarts

/-- A task that enters a production does not do so at the offset. -/
theorem Late.offset_lt (h : Late source o t) (henters : t.Enters rules) : o < t.cursor.offset := by
  rcases h with hlt | ⟨-, hsheltered⟩
  · exact hlt
  · have hmay := mayEnter_of_enters henters
    rw [hsheltered.mayEnter_eq] at hmay
    cases hmay

theorem late_of_starts_refine {judge : α → Verdict β} (hp : Sheltered source p)
    (h : Task.Starts rules source ⟨k, p.refine judge, c⟩ u) : Late source c.offset u := by
  cases h
  exact Or.inr ⟨Nat.le_refl _, hp⟩

theorem late_of_starts_named {name : String} (hp : Sheltered source p)
    (h : Task.Starts rules source ⟨k, .named name p, c⟩ u) : Late source c.offset u := by
  cases h
  exact Or.inr ⟨Nat.le_refl _, hp⟩

/-- What a production starts is sheltered. -/
theorem late_of_starts {n : Production} (h : Task.Starts rules source ⟨k, rules n, c⟩ u) :
    Late source c.offset u := by
  cases n with
  | spacing =>
      have hitems : Sheltered source triviaItem.many := sheltered_triviaItem
      exact late_of_starts_refine hitems h
  | datum =>
      have hitem : Sheltered source (lexeme skip _) :=
        sheltered_lexeme sheltered_datumItem fun _ => consumes_datumItem
      exact late_of_starts_refine hitem h
  | expr =>
      have hatoms : Sheltered source ((choice [tick, variableName, constant, natLit,
          compound]).orElse (.fail (.ofDescription "expression"))) :=
        sheltered_atoms.orElse trivial
      exact late_of_starts_named hatoms h

/-- A production that is entered while another one is active lies further on. -/
theorem offset_lt_of_enters (ht : t.Enters rules) (hu : u.Enters rules)
    (h : Relation.TransGen (Task.Starts rules source) t u) : t.cursor.offset < u.cursor.offset := by
  obtain ⟨v, hstarts, hvisits⟩ := Relation.TransGen.head'_iff.mp h
  obtain ⟨n, hn⟩ := ht
  rw [hn] at hstarts
  exact ((late_of_starts hstarts).visits hvisits).offset_lt hu

/-! ## Active productions -/

/-- Each task of the stack has been started by the one before it. -/
abbrev IsStack (source : String) (ts : List (Task Production Production.Result)) : Prop :=
  ts.IsChain (Task.Starts rules source)

/-- Productions that are active at once stand further and further on. -/
theorem IsStack.pairwise_offset {ts active : List (Task Production Production.Result)}
    (h : IsStack source ts) (hactive : active.Sublist ts)
    (henters : ∀ u ∈ active, u.Enters rules) :
    active.Pairwise fun t u => t.cursor.offset < u.cursor.offset := by
  have hchain : ts.IsChain (Relation.TransGen (Task.Starts rules source)) :=
    h.imp fun _ _ => Relation.TransGen.single
  have hpairs := (List.isChain_iff_pairwise.mp hchain).sublist hactive
  refine List.Pairwise.imp_of_mem (fun ht hu hstarts => ?_) hpairs
  exact offset_lt_of_enters (henters _ ht) (henters _ hu) hstarts

/-- What is on the stack of a task stands somewhere in the text that is left at it. -/
theorem IsStack.reaches {ts : List (Task Production Production.Result)}
    (h : IsStack source (t :: ts)) : ∀ u ∈ t :: ts, t.cursor.Reaches u.cursor := by
  induction ts generalizing t with
  | nil =>
      intro u hu
      rw [List.mem_singleton.mp hu]
      exact Cursor.Reaches.refl _
  | cons v vs ih =>
      obtain ⟨hstarts, hrest⟩ := List.isChain_cons_cons.mp h
      intro u hu
      rcases List.mem_cons.mp hu with rfl | hu
      · exact Cursor.Reaches.refl _
      · exact hstarts.reaches.trans (ih hrest u hu)

/-- There are no more active productions than places in the text. -/
theorem IsStack.length_le {ts active : List (Task Production Production.Result)}
    (h : IsStack source (t :: ts)) (hactive : active.Sublist (t :: ts))
    (henters : ∀ u ∈ active, u.Enters rules) : active.length ≤ t.cursor.rest.length + 1 := by
  have hincreasing := h.pairwise_offset hactive henters
  have hdistinct : (active.map fun u => u.cursor.offset).Nodup :=
    (List.pairwise_map.mpr hincreasing).imp Nat.ne_of_lt
  have hplaces : (active.map fun u => u.cursor.offset).toFinset ⊆
      Finset.Icc t.cursor.offset (t.cursor.offset + t.cursor.rest.length) := by
    intro o ho
    obtain ⟨u, hu, rfl⟩ := List.mem_map.mp (List.mem_toFinset.mp ho)
    obtain ⟨x, hx⟩ := h.reaches u (hactive.subset hu)
    have hlength := congrArg List.length hx.rest
    rw [List.length_append] at hlength
    have hoffset := hx.offset
    exact Finset.mem_Icc.mpr (by omega)
  have hcard := Finset.card_le_card hplaces
  rw [List.toFinset_card_of_nodup hdistinct, List.length_map, Nat.card_Icc] at hcard
  omega

end Grammar

/-- A call enters a production and has one level of nesting less to spend; nothing else does. -/
theorem Task.Starts.ceiling_eq_or {N : Type} {R : N → Type} {rules : Rules N R} {source : String}
    {t u : Task N R} (h : Starts rules source t u) :
    t.ceiling = u.ceiling ∨ t.ceiling = u.ceiling + 1 ∧ u.Enters rules := by
  cases h with
  | call => exact Or.inr ⟨rfl, _, rfl⟩
  | _ => exact Or.inl rfl

/-- The levels of nesting that are spent on the way to a task have gone into productions that are
active. -/
theorem Task.Visits.exists_active {N : Type} {R : N → Type} {rules : Rules N R} {source : String}
    {t u : Task N R} (h : Visits rules source t u) :
    ∃ ts active : List (Task N R), (t :: ts).IsChain (Starts rules source) ∧ active.Sublist ts ∧
      (∀ v ∈ active, v.Enters rules) ∧ t.ceiling = u.ceiling + active.length := by
  induction h using Relation.ReflTransGen.head_induction_on with
  | refl => exact ⟨[], [], .singleton _, List.Sublist.refl _, by simp, rfl⟩
  | @head t t' hstarts _ ih =>
      obtain ⟨ts, active, hchain, hsub, henters, hceiling⟩ := ih
      rcases hstarts.ceiling_eq_or with heq | ⟨hsucc, henter⟩
      · exact ⟨t' :: ts, active, .cons_cons hstarts hchain, hsub.cons t', henters,
          heq.trans hceiling⟩
      · refine ⟨t' :: ts, t' :: active, .cons_cons hstarts hchain, hsub.cons_cons t', ?_, ?_⟩
        · exact List.forall_mem_cons.mpr ⟨henter, henters⟩
        · rw [hsucc, hceiling, List.length_cons]
          omega

namespace Grammar

/-! ## Runs end -/

/-- What a descent may start from. -/
inductive Root : {α : Type} → PieParser α → Prop where
  | program : Root program
  | topLevel : Root topLevel
  | production (n : Production) : Root (rules n)

variable {source : String} {k l : Nat} {α : Type} {p : PieParser α} {c : Cursor}

theorem Root.tamed (h : Root p) : Parser.Throughout rules source (Tame source) p := by
  cases h with
  | program => exact Started.program.tamed
  | topLevel => exact tamed_topLevel
  | production n => exact tamed_rules n

/-- A run is cut off by its ceiling only, because that many productions are active. -/
theorem Tamed.ne_tooDeep (h : Tamed source p) (hk : c.rest.length + 1 < k) :
    rules.run k source p c ≠ .interrupted .tooDeep := by
  intro hdeep
  obtain ⟨u, hvisits, hraises⟩ := (Task.outcome_eq_interrupted_iff (t := ⟨k, p, c⟩)).mp hdeep
  have htame := (hvisits.throughout tamed_rules h).self
  cases hraises with
  | judge hok hj =>
      obtain ⟨n, hn, -⟩ := htame _ _ _ _ _ hok hj
      cases hn
  | tooDeep =>
      obtain ⟨ts, active, hchain, hsub, henters, hceiling⟩ := hvisits.exists_active
      have hle := IsStack.length_le hchain (hsub.cons _) henters
      simp only [Nat.zero_add] at hceiling
      simp only at hle
      omega

/-- A run that is not cut off is the same under every higher ceiling. -/
theorem run_eq_of_le (hkl : k ≤ l) (h : rules.run k source p c ≠ .interrupted .tooDeep) :
    rules.run l source p c = rules.run k source p c :=
  ((rules.run_upTo hkl source p c).eq h).symm

/-- Every run ends: with enough nesting to spend, it always comes to the same outcome. -/
theorem Root.exists_outcome (h : Root p) (c : Cursor) :
    ∃ o, o ≠ .interrupted .tooDeep ∧
      ∀ k, c.rest.length + 1 < k → rules.run k source p c = o := by
  have hdeep : rules.run (c.rest.length + 2) source p c ≠ .interrupted .tooDeep :=
    Tamed.ne_tooDeep h.tamed (Nat.lt_succ_self _)
  exact ⟨_, hdeep, fun k hk => run_eq_of_le hk hdeep⟩

end Grammar

/-- The descent is well founded.  A production that is entered while another one is active lies
further on; so there are no more active productions than places in the text that is left, and every
run ends.  A ceiling on nesting cuts runs off and does nothing else: one that ends below it is the
same under every higher ceiling. -/
theorem descent_wellFounded (source : String) :
    (∀ t u : Task Production Production.Result, t.Enters Grammar.rules → u.Enters Grammar.rules →
      Relation.TransGen (Task.Starts Grammar.rules source) t u →
        t.cursor.offset < u.cursor.offset) ∧
    (∀ (t : Task Production Production.Result) (ts active : List (Task Production Production.Result)),
      Grammar.IsStack source (t :: ts) → active.Sublist (t :: ts) →
        (∀ u ∈ active, u.Enters Grammar.rules) → active.length ≤ t.cursor.rest.length + 1) ∧
    (∀ {α : Type} (p : PieParser α), Grammar.Root p → ∀ c,
      ∃ o, o ≠ .interrupted .tooDeep ∧
        ∀ k, c.rest.length + 1 < k → Grammar.rules.run k source p c = o) ∧
    ∀ {α : Type} (p : PieParser α) c k l, k ≤ l →
      Grammar.rules.run k source p c ≠ .interrupted .tooDeep →
        Grammar.rules.run l source p c = Grammar.rules.run k source p c :=
  ⟨fun _ _ ht hu h => Grammar.offset_lt_of_enters ht hu h,
    fun _ _ _ h hactive henters => h.length_le hactive henters,
    fun _ hp c => hp.exists_outcome c,
    fun _ _ _ _ hkl h => Grammar.run_eq_of_le hkl h⟩

/-- Trivia that start with a datum comment enter the datum after its mark, and come to the same end
under every ceiling that is high enough. -/
theorem descent_datumComment :
    (∃ t u : Task Production Production.Result, t.Enters Grammar.rules ∧ u.Enters Grammar.rules ∧
      Relation.TransGen (Task.Starts Grammar.rules "<memory>") t u ∧
      t.cursor.offset = 0 ∧ t.cursor.offset < u.cursor.offset) ∧
    Grammar.rules.run 9 "<memory>" Grammar.trivia (.start "#;a".toList) =
      Grammar.rules.run 2 "<memory>" Grammar.trivia (.start "#;a".toList) := by
  obtain ⟨hfurther, -, -, hceiling⟩ := descent_wellFounded "<memory>"
  constructor
  · have hmark : Grammar.rules.run 1 "<memory>" (lexeme Grammar.skip (.text "#;".toList))
        (.start "#;a".toList) =
          .ok ⟨⟨"<memory>", ⟨1, 1⟩, ⟨1, 3⟩⟩, "#;".toList⟩ ⟨"a".toList, 2, ⟨1, 3⟩⟩ := rfl
    have hcomment : Relation.TransGen (Task.Starts Grammar.rules "<memory>")
        ⟨1, Grammar.trivia, .start "#;a".toList⟩
        ⟨1, datumComment Grammar.skip Grammar.innerDatum, .start "#;a".toList⟩ :=
      ((Relation.TransGen.single .refine).tail .manyRound).tail (Grammar.starts_datumComment rfl)
    have hdatum : Relation.TransGen (Task.Starts Grammar.rules "<memory>")
        ⟨1, Grammar.trivia, .start "#;a".toList⟩
        ⟨1, Grammar.anyDatum, ⟨"a".toList, 2, ⟨1, 3⟩⟩⟩ :=
      ((hcomment.tail .refine).tail .named).tail (.bindNext hmark)
    have hspacing : Task.Enters Grammar.rules ⟨1, Grammar.trivia, .start "#;a".toList⟩ :=
      ⟨.spacing, rfl⟩
    have henters : Task.Enters Grammar.rules ⟨1, Grammar.anyDatum, ⟨"a".toList, 2, ⟨1, 3⟩⟩⟩ :=
      ⟨.datum, rfl⟩
    exact ⟨_, _, hspacing, henters, hdatum, rfl, hfurther _ _ hspacing henters hdatum⟩
  · refine hceiling Grammar.trivia (.start "#;a".toList) 2 9 (by decide) fun hdeep => ?_
    have hok : Grammar.rules.run 2 "<memory>" Grammar.trivia (.start "#;a".toList) =
        .ok () ⟨[], 3, ⟨1, 4⟩⟩ := rfl
    cases hok.symm.trans hdeep

end PieSyntax
