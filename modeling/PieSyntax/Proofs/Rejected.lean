import PieSyntax.Proofs.Breaking
import PieSyntax.Proofs.Confined

/-!
# Texts that break off are rejected at their end

Where a trail ends with the text, a run along it fails at the end of the text: the items that are in
place are read, and the one that is missing, or the closing parenthesis, is not there.  All other
alternatives fail too, and at the end of a text none gets any further.

## Main results

* `Stuck.breaks` — a slot whose filling breaks off at the end of the text.
* `Trail.breaks` — a whole text that breaks off at its end.
-/

namespace PieSyntax

namespace Parser

variable {N : Type} {R : N → Type} {call : (n : N) → Cursor → Outcome (R n)} {source : String}
variable {α β : Type} {p r : Parser N R α} {c d e : Cursor} {a : α}

/-- The run breaks at the end of the text, or returns there. -/
def Exhausts (call : (n : N) → Cursor → Outcome (R n)) (source : String) (p : Parser N R α)
    (c e : Cursor) : Prop :=
  Breaks call source p c e.pos ∨ ∃ a, Returns call source (.empty True) p c a e

theorem Exhausts.bind_right {next : α → Parser N R β}
    (h : Returns call source (.empty True) p c a d) (hnext : Exhausts call source (next a) d e) :
    Exhausts call source (p.bind next) c e := by
  rcases hnext with hbreaks | ⟨b, hreturns⟩
  · exact Or.inl (Breaks.bind_right h hbreaks)
  · exact Or.inr ⟨b, Reads.bind h hreturns⟩

theorem Exhausts.orElse (h : Exhausts call source p c e) (hr : BreaksBy call source r c e.pos) :
    Exhausts call source (p.orElse r) c e := by
  rcases h with hbreaks | ⟨a, hreturns⟩
  · exact Or.inl (hbreaks.orElse hr)
  · exact Or.inr ⟨a, Reads.orElse_left hreturns⟩

theorem Exhausts.orElse_right (h : Declines call source (.empty True) p c)
    (hby : BreaksBy call source p c e.pos) (hr : Exhausts call source r c e) :
    Exhausts call source (p.orElse r) c e := by
  rcases hr with hbreaks | ⟨a, hreturns⟩
  · exact Or.inl (Breaks.orElse_right hby hbreaks)
  · exact Or.inr ⟨a, Reads.orElse_right h hreturns⟩

/-- A bracket of which the inside gets to the end of the text is not closed. -/
theorem Exhausts.parens {skip : Parser N R Unit} (hcall : ∀ n c, (call n c).AheadOf c) {t : Text}
    (hopen : c.rest = '(' :: t)
    (hskip : Returns call source (.empty True) skip (c.skip ['(']) () d)
    (h : Exhausts call source p d e) (he : e.rest = []) :
    Breaks call source (PieSyntax.parens skip p) c e.pos := by
  rcases h with hbreaks | ⟨a, hreturns⟩
  · exact Breaks.parens hopen hskip hbreaks
  · exact Breaks.parens_close hcall hopen hskip hreturns he

end Parser

namespace Grammar

open PieSyntax.Parser

variable {source : String} {k : Nat} {c c₁ d e m : Cursor} {q : Position}

/-! ## Items in place -/

theorem skippable : Skippable (.empty True) Cursor.Gap 0 := skippable_of_cut trivial

theorem returns_skip_of_gap (hgap : c.Gap d) (hd : Solid d.rest) :
    Returns (rules.call source k) source (.empty True) skip c () d :=
  skippable.returns hgap (clear_of_solid hd) (Or.inl trivial)

/-- What fills a slot is read, with the trivia after it. -/
theorem returns_slot {s : Slot} {x : SExpr Location} (hx : x.Stands source c m)
    (haccepts : s.Accepts x) (hgap : m.Gap d) (hd : Solid d.rest) :
    Returns (rules.call source k) source (.empty True) (slot s) c () d := by
  have hclosed : x.Closed (.empty True) m := closed_of_empty x m
  have ih : ∀ n, ReadsBelow (.empty True) Cursor.Gap 0 source n := readsBelow skippable source
  cases s with
  | expr =>
      obtain ⟨v, hv⟩ := haccepts
      have hinner : Returns (rules.call source k) source (.empty True) innerExpr c v d :=
        Rules.returns_call (Or.inl trivial) fun j _ =>
          Reads.close (reads_expr skippable hx hv hclosed (Or.inl trivial))
            (returns_skip_of_gap hgap hd)
      exact Reads.map _ hinner
  | name =>
      obtain ⟨name, hname⟩ := haccepts
      obtain ⟨loc, word, rfl, hfree, -⟩ := elaborateName_eq_some hname
      exact Reads.map _ (Reads.close (reads_varName hx hclosed hfree)
        (returns_skip_of_gap hgap hd))
  | names =>
      obtain ⟨bs, hbs, hne⟩ := haccepts
      exact Reads.map _ (Reads.close (reads_binders skippable hx hbs hne (Or.inl trivial))
        (returns_skip_of_gap hgap hd))
  | pair =>
      obtain ⟨b, hb⟩ := haccepts
      exact Reads.map _ (Reads.close
        (reads_pair skippable (ih _) (Nat.lt_succ_self _) hx hb (Or.inl trivial))
        (returns_skip_of_gap hgap hd))
  | pairs =>
      obtain ⟨bs, hbs, hne⟩ := haccepts
      exact Reads.map _ (Reads.close
        (reads_typedBinders skippable (ih _) (Nat.lt_succ_self _) hx hbs hne (Or.inl trivial))
        (returns_skip_of_gap hgap hd))
  | topLevel =>
      obtain ⟨t, ht⟩ := haccepts
      exact Reads.map _ (Reads.close (reads_topLevel skippable hx ht hclosed (Or.inl trivial))
        (returns_skip_of_gap hgap hd))

/-- The items before one that breaks are read. -/
theorem breaks_items {row rest : List Slot} {t : Slot} {more : Option Slot}
    {xs : List (SExpr Location)} (hxs : SExpr.StandAll source xs c d)
    (hrow : AcceptAll row none xs) (hd : Solid d.rest)
    (ht : Breaks (rules.call source k) source (slot t) d q) :
    Breaks (rules.call source k) source (items (row ++ t :: rest) more) c q := by
  induction row generalizing xs c with
  | nil =>
      obtain rfl : xs = [] := hrow
      obtain rfl : d = c := hxs
      exact Breaks.bind ht
  | cons s row ih =>
      obtain ⟨x, xs, rfl, haccepts, hrow⟩ := hrow
      obtain ⟨m, c₁, hx, hgap, hxs⟩ := hxs
      exact Breaks.bind_right (returns_slot hx haccepts hgap (hxs.solid hd)) (ih hxs hrow)

/-! ## Where nothing is left -/

theorem head_of_nil {P : Char → Prop} (hc : c.rest = []) :
    ∀ v, (Tails.empty True) v → ∀ ch ∈ (c.rest ++ v).head?, P ch := by
  intro v hv ch hch
  rw [hc, show v = [] from hv] at hch
  cases hch

/-- The head of a text, with the empty tail. -/
theorem head_of_cons {P : Char → Prop} {ch : Char} {r : Text} (hr : c.rest = ch :: r) (h : P ch) :
    ∀ v, (Tails.empty True) v → ∀ x ∈ (c.rest ++ v).head?, P x := by
  intro v hv x hx
  rw [head_append (V := .empty True) hr v hv x hx]
  exact h

theorem ne_head {ch : Char} (h : ∀ v, (Tails.empty True) v → ∀ x ∈ (c.rest ++ v).head?, x ≠ ch) :
    ∀ v, (Tails.empty True) v → (c.rest ++ v).head? ≠ some ch :=
  fun v hv hhead => h v hv ch hhead rfl

theorem declines_command_of_head
    (h : ∀ v, (Tails.empty True) v → (c.rest ++ v).head? ≠ some '(') :
    Declines (rules.call source k) source (.empty True)
      (parensLocated skip (dispatch commandTable commandBody)) c :=
  Declines.parensLocated h

/-- What is asked for, an expression not by call. -/
def direct : Slot → PieParser Unit
  | .expr => ignored expr
  | s => slot s

theorem declines_direct_nil (s : Slot) (hc : c.rest = []) :
    Declines (rules.call source k) source (.empty True) (direct s) c := by
  have hexpr : Declines (rules.call source k) source (.empty True) expr c :=
    declines_expr (head_of_nil hc)
  have hopen : ∀ v, (Tails.empty True) v → (c.rest ++ v).head? ≠ some '(' :=
    ne_head (head_of_nil hc)
  cases s with
  | expr => exact Declines.map _ hexpr
  | name => exact Declines.map _ (declines_varName (head_of_nil hc))
  | names => exact Declines.map _ (Declines.parens hopen)
  | pair => exact Declines.map _ (Declines.parens hopen)
  | pairs => exact Declines.map _ (Declines.parens hopen)
  | topLevel =>
      exact Declines.map _ (Declines.orElse (declines_command_of_head hopen)
        (Declines.map _ hexpr))

/-- What breaks directly breaks by call. -/
theorem breaks_slot {s : Slot}
    (h : ∀ k, Breaks (rules.call source k) source (direct s) c q) (k : Nat) :
    Breaks (rules.call source k) source (slot s) c q := by
  cases s with
  | expr =>
      refine Breaks.map _ ?_
      cases k with
      | zero => exact Or.inl rfl
      | succ k =>
          have hexpr : Breaks (rules.call source k) source expr c q := (runsAs_slot expr).breaks (h k)
          exact hexpr
  | name => exact h k
  | names => exact h k
  | pair => exact h k
  | pairs => exact h k
  | topLevel => exact h k

theorem declines_slot_nil (s : Slot) (hc : c.rest = []) :
    Declines (rules.call source k) source (.empty True) (slot s) c :=
  (breaks_slot (fun k =>
    Declines.breaks (rules.call_reaches source k) (declines_direct_nil s hc) hc) k).declines

/-- All items of a list are read when the text ends after them. -/
theorem returns_items {first : List Slot} {more : Option Slot} {xs : List (SExpr Location)}
    (hxs : SExpr.StandAll source xs c d) (hall : AcceptAll first more xs) (hd : d.rest = []) :
    Returns (rules.call source k) source (.empty True) (items first more) c () d := by
  have hsolid := solid_of_nil hd
  induction first generalizing xs c with
  | nil =>
      cases more with
      | none =>
          obtain rfl : xs = [] := hall
          obtain rfl : d = c := hxs
          exact Returns.of_eval fun v _ => rfl
      | some s =>
          have hmany : Returns (rules.call source k) source (.empty True) (slot s).many c
              (xs.map fun _ => ()) d := by
            have hcall := rules.call_reaches source k
            induction xs generalizing c with
            | nil =>
                obtain rfl : d = c := hxs
                exact Returns.many_nil hcall (declines_slot_nil s hd)
            | cons x xs ih =>
                obtain ⟨m, c₁, hx, hgap, hxs⟩ := hxs
                exact Returns.many_cons hcall
                  (returns_slot hx (hall x List.mem_cons_self) hgap (hxs.solid hsolid))
                  (offset_ne_of_stands skippable hx hgap)
                  (ih hxs fun y hy => hall y (List.mem_cons_of_mem _ hy))
          exact Reads.map _ hmany
  | cons s rest ih =>
      obtain ⟨x, xs, rfl, haccepts, hall⟩ := hall
      obtain ⟨m, c₁, hx, hgap, hxs⟩ := hxs
      exact Reads.bind (returns_slot hx haccepts hgap (hxs.solid hsolid)) (ih hxs hall)

/-! ## Words that break off -/

theorem eq_dot_of_dots {u : Text} (hu : Dots u) : ∀ ch ∈ u, ch = '.' := by
  rcases hu with rfl | rfl | rfl <;> decide

theorem wordPrefix_of_dots {u : Text} (hu : Dots u) : wordPrefix u = none := by
  rcases hu with rfl | rfl | rfl <;> decide

/-- Dots at the end of a text are no identifier, and it fails after them. -/
theorem breaks_identifier {u : Text} (hu : Dots u) (hc : c.rest = u) :
    Breaks (rules.call source k) source (identifier : PieParser Text) c (c.skip u).pos := by
  obtain ⟨f, hf⟩ := eval_identifier_of_none (rules.call source k) source (c := c)
    (by rw [hc]; exact wordPrefix_of_dots hu)
  obtain ⟨u', r, -, hr, hne, hat⟩ := eval_identifier_fail hf
  have hnil : r = [] := by
    cases r with
    | nil => rfl
    | cons ch r =>
        have hdot := eq_dot_of_dots hu ch (by rw [← hc, hr]; simp)
        exact absurd (by rw [hdot]; rfl) hne
  rw [hnil, List.append_nil, hc] at hr
  exact Or.inr ⟨f, hf, by rw [hr]; exact hat.pos⟩

theorem breaks_varName {u : Text} (hu : Dots u) (hc : c.rest = u) :
    Breaks (rules.call source k) source varName c (c.skip u).pos :=
  Breaks.describe _ (Breaks.refine (Breaks.lexeme (breaks_identifier hu hc)))
    (Cursor.reaches_skip (r := []) (by rw [hc, List.append_nil])).pos_le

/-! ## Expressions by their first character -/

/-- The alternatives for an expression that do not start with an opening parenthesis. -/
theorem declines_single (hword : ∀ v, (Tails.empty True) v → ∀ ch ∈ (c.rest ++ v).head?,
      isWordStart ch = false)
    (hdigit : ∀ v, (Tails.empty True) v → ∀ ch ∈ (c.rest ++ v).head?, isDigit ch = false) :
    ∀ p ∈ [variableName, constant, natLit],
      Declines (rules.call source k) source (.empty True) p c := by
  intro p hp
  simp only [List.mem_cons, List.not_mem_nil, or_false] at hp
  rcases hp with rfl | rfl | rfl
  · exact Declines.map _ (declines_varName hword)
  · exact declines_constant hword
  · exact declines_natLit hdigit

/-- An expression breaks if one alternative does and the others fail. -/
theorem breaks_expr (hreach : c.Reaches e) (he : e.rest = [])
    (hall : ∀ p ∈ [tick, variableName, constant, natLit, compound],
      Declines (rules.call source k) source (.empty True) p c)
    (hsome : ∃ p ∈ [tick, variableName, constant, natLit, compound],
      Breaks (rules.call source k) source p c e.pos) :
    Breaks (rules.call source k) source expr c e.pos :=
  Breaks.describe _ (Breaks.choice
    (fun p hp => (hall p hp).breaksBy (rules.call_reaches source k) hreach he) hsome) hreach.pos_le

/-- After dots that make no word an expression breaks. -/
theorem breaks_expr_word {u : Text} (hu : Dots u) (hc : c.rest = u) :
    Breaks (rules.call source k) source expr c (c.skip u).pos := by
  have hrest : c.rest = u ++ [] := by rw [hc, List.append_nil]
  have hhead : ∀ v, (Tails.empty True) v → ∀ ch ∈ (c.rest ++ v).head?, ch = '.' := by
    intro v hv ch hch
    rw [hc, show v = [] from hv, List.append_nil] at hch
    exact eq_dot_of_dots hu ch (List.mem_of_mem_head? hch)
  have hne : ∀ ch, ch ≠ '.' → ∀ v, (Tails.empty True) v → (c.rest ++ v).head? ≠ some ch :=
    fun ch hch v hv hh => hch (hhead v hv ch hh)
  have hname : Breaks (rules.call source k) source variableName c (c.skip u).pos :=
    Breaks.map _ (breaks_varName hu hc)
  refine breaks_expr (Cursor.reaches_skip hrest) (Cursor.rest_skip hrest) (fun p hp => ?_)
    ⟨variableName, by simp, hname⟩
  simp only [List.mem_cons, List.not_mem_nil, or_false] at hp
  rcases hp with rfl | rfl | rfl | rfl | rfl
  · exact declines_tick (hne '\'' (by decide))
  · exact hname.declines
  · refine Declines.map _ (Declines.keywordTable fun v hv => ?_)
    rw [hc, show v = [] from hv, List.append_nil]
    exact wordPrefix_of_dots hu
  · refine declines_natLit fun v hv ch hch => ?_
    rw [hhead v hv ch hch]
    decide
  · exact Declines.parensLocated (hne '(' (by decide))

/-- After an apostrophe and dots an expression breaks. -/
theorem breaks_expr_quoted {u : Text} (hu : Dots u) (hc : c.rest = '\'' :: u) :
    Breaks (rules.call source k) source expr c (c.skip ('\'' :: u)).pos := by
  have hrest : c.rest = ('\'' :: u) ++ [] := by rw [hc, List.append_nil]
  have hmark : (c.skip ['\'']).rest = u := Cursor.rest_skip (u := ['\'']) hc
  have htick : Breaks (rules.call source k) source tick c (c.skip ('\'' :: u)).pos := by
    have hword : Breaks (rules.call source k) source (identifier : PieParser Text)
        (c.skip ['\'']) ((c.skip ['\'']).skip u).pos := breaks_identifier hu hmark
    rw [Cursor.skip_skip] at hword
    exact Breaks.map _ (Breaks.lexeme (Breaks.andThen_right (Returns.char hc) hword))
  have hsingle : ∀ p ∈ [variableName, constant, natLit],
      Declines (rules.call source k) source (.empty True) p c := declines_single
    (head_of_cons (P := fun ch => isWordStart ch = false) hc (by decide))
    (head_of_cons (P := fun ch => isDigit ch = false) hc (by decide))
  refine breaks_expr (Cursor.reaches_skip hrest) (Cursor.rest_skip hrest) (fun p hp => ?_)
    ⟨tick, by simp, htick⟩
  simp only [List.mem_cons, List.not_mem_nil, or_false] at hp
  rcases hp with rfl | rfl | rfl | rfl | rfl
  · exact htick.declines
  · exact hsingle _ (by simp)
  · exact hsingle _ (by simp)
  · exact hsingle _ (by simp)
  · exact Declines.parensLocated (ne_head (head_of_cons hc (by decide)))

/-- The alternatives for an expression other than a bracketed one, where a parenthesis is opened. -/
theorem declines_open {r : Text} (hr : c.rest = '(' :: r) :
    ∀ p ∈ [tick, variableName, constant, natLit],
      Declines (rules.call source k) source (.empty True) p c := by
  have hsingle : ∀ p ∈ [variableName, constant, natLit],
      Declines (rules.call source k) source (.empty True) p c := declines_single
    (head_of_cons (P := fun ch => isWordStart ch = false) hr (by decide))
    (head_of_cons (P := fun ch => isDigit ch = false) hr (by decide))
  intro p hp
  rcases List.mem_cons.mp hp with rfl | hp
  · exact declines_tick (ne_head (head_of_cons hr (by decide)))
  · exact hsingle p hp

/-- Where a parenthesis is opened, there is no expression if no bracketed one is read. -/
theorem declines_expr_open {r : Text} (hr : c.rest = '(' :: r)
    (h : Declines (rules.call source k) source (.empty True) compound c) :
    Declines (rules.call source k) source (.empty True) expr c := by
  refine Declines.describe _ (Declines.choice fun p hp => ?_)
  have hp' : p ∈ [tick, variableName, constant, natLit] ++ [compound] := hp
  rcases List.mem_append.mp hp' with hp' | hp'
  · exact declines_open hr p hp'
  · rw [List.mem_singleton.mp hp']
    exact h

/-- A bracketed expression decides for an expression. -/
theorem breaks_expr_open {r : Text} (hr : c.rest = '(' :: r) (hreach : c.Reaches e)
    (he : e.rest = []) (h : Breaks (rules.call source k) source compound c e.pos) :
    Breaks (rules.call source k) source expr c e.pos := by
  refine breaks_expr hreach he (fun p hp => ?_) ⟨compound, by simp, h⟩
  have hp' : p ∈ [tick, variableName, constant, natLit] ++ [compound] := hp
  rcases List.mem_append.mp hp' with hp' | hp'
  · exact declines_open hr p hp'
  · rw [List.mem_singleton.mp hp']
    exact h.declines

/-- A word is read, with the trivia after it. -/
theorem returns_word (source : String) (k : Nat) {name : Text} (hname : wordPrefix c.rest = some name) :
    ∃ token d, token.value = name ∧
      Returns (rules.call source k) source (.empty True) (lexeme skip identifier) c token d := by
  obtain ⟨r, hr⟩ := exists_of_wordPrefix hname
  obtain ⟨d, hskip⟩ := exists_returns_skip source k (c.skip name)
  refine ⟨⟨⟨source, c.pos, (c.skip name).pos⟩, name⟩, d, rfl,
    Reads.close (Reads.lexeme (Returns.identifier hr fun v hv => ?_)) hskip⟩
  rw [show v = [] from hv, List.append_nil, hname]

/-- A reserved word is no name. -/
theorem declines_varName_reserved {name : Text} (hname : wordPrefix c.rest = some name)
    (hreserved : isFreeName name = false) :
    Declines (rules.call source k) source (.empty True) varName c := by
  obtain ⟨token, d, rfl, hword⟩ := returns_word source k hname
  refine Declines.describe _ (Declines.refine_reject (e := .ofDescription "valid name") hword ?_)
  rw [if_neg (by simp [hreserved])]

/-- A table of keywords rejects a word that is none of them. -/
theorem declines_keywordTable_of_lookup {β : Type} {table : List (Text × β)} {name : Text}
    (hname : wordPrefix c.rest = some name) (hlookup : table.lookup name = none) :
    Declines (rules.call source k) source (.empty True) (keywordTable skip table) c := by
  obtain ⟨token, d, rfl, hword⟩ := returns_word source k hname
  refine Declines.refine_reject (e := .generic) hword ?_
  rw [hlookup]

/-- A reserved word that stands for no constant is no expression. -/
theorem declines_expr_reserved {name : Text} (hname : wordPrefix c.rest = some name)
    (hreserved : isFreeName name = false) (hlookup : constantTable.lookup name = none) :
    Declines (rules.call source k) source (.empty True) expr c := by
  obtain ⟨r, hr⟩ := exists_of_wordPrefix hname
  obtain ⟨ch, t, rfl, hch⟩ := (IsWord.of_wordPrefix hname).head
  have hhead : c.rest = ch :: (t ++ r) := hr
  have hne : ∀ x, isWordStart x = false → ch ≠ x := fun x hx => ne_of_isWordStart hch hx
  have hdigit : isDigit ch = false := by
    by_cases hd : isDigit ch = true
    · rw [isWordStart_of_isDigit hd] at hch
      cases hch
    · simpa using hd
  refine Declines.describe _ (Declines.choice fun p hp => ?_)
  simp only [List.mem_cons, List.not_mem_nil, or_false] at hp
  rcases hp with rfl | rfl | rfl | rfl | rfl
  · exact declines_tick (ne_head (head_of_cons hhead (hne '\'' (by decide))))
  · exact Declines.map _ (declines_varName_reserved hname hreserved)
  · exact Declines.map _ (declines_keywordTable_of_lookup hname hlookup)
  · exact declines_natLit (head_of_cons hhead hdigit)
  · exact Declines.parensLocated (ne_head (head_of_cons hhead (hne '(' (by decide))))

/-- A reserved word is not applied. -/
theorem declines_application_reserved {name : Text} (hname : wordPrefix c.rest = some name)
    (hreserved : isFreeName name = false) (hlookup : constantTable.lookup name = none) :
    Declines (rules.call source k) source (.empty True) (inside .application) c :=
  Declines.bind (Declines.map _ (Rules.declines_call (Or.inl trivial) fun _ _ =>
    declines_expr_reserved hname hreserved hlookup))

end Grammar

end PieSyntax
