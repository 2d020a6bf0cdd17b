import PieSyntax.Proofs.Ceiling
import PieSyntax.Proofs.Token
import PieSyntax.Syntax.Grammar

/-!
# Trivia

What the trivia parser drops, said of texts.  Trivia, the datum that is commented out, and the data
within a group refer to one another, so the three are one relation, `Dropped`, with three extents.

Every trailing run of trivia is read as far as it goes, so where the parser stops nothing more can
be dropped.  A text is *solid* if it does not start as trivia do.

## Main results

* `gap_of_eval_trivia`, `gap_of_eval_skip` — what was skipped is trivia, and a solid text is left.
* `eval_skip_again` — right after trivia there are none.
-/

namespace PieSyntax

/-- What is dropped: trivia, a datum, or the data of a group. -/
inductive Extent where
  | trivia
  | datum
  | data

/-- What stands before the second text in the first one is dropped. -/
inductive Dropped : Extent → Text → Text → Prop where
  | none (s : Text) : Dropped .trivia s s
  | white {ch : Char} {s s' : Text} (hch : ch ∈ whitespace) (h : Dropped .trivia s s') :
    Dropped .trivia (ch :: s) s'
  | line {body s s' : Text} (hbody : '\n' ∉ body) (h : Dropped .trivia s s') :
    Dropped .trivia (';' :: (body ++ '\n' :: s)) s'
  /-- A comment that no newline ends. -/
  | lastLine {body : Text} (hbody : '\n' ∉ body) : Dropped .trivia (';' :: body) []
  | comment {s s₁ s₂ s' : Text} (hbefore : Dropped .trivia s s₁) (hdatum : Dropped .datum s₁ s₂)
    (hafter : Dropped .trivia s₂ s') : Dropped .trivia ('#' :: ';' :: s) s'
  | word {name r : Text} (h : wordPrefix (name ++ r) = some name) : Dropped .datum (name ++ r) r
  | digits {run r : Text} (h : digitPrefix (run ++ r) = some run) : Dropped .datum (run ++ r) r
  | group {s s₁ s' : Text} (hbefore : Dropped .trivia s s₁) (hdata : Dropped .data s₁ (')' :: s')) :
    Dropped .datum ('(' :: s) s'
  | nil (s : Text) : Dropped .data s s
  | cons {s s₁ s₂ s' : Text} (hdatum : Dropped .datum s s₁) (hafter : Dropped .trivia s₁ s₂)
    (hdata : Dropped .data s₂ s') : Dropped .data s s'

/-- Whether trivia may start with the character. -/
def startsTrivia (ch : Char) : Bool := (whitespace ++ [';', '#']).contains ch

/-- The text does not start as trivia do. -/
def Solid (s : Text) : Prop := ∀ ch ∈ s.head?, startsTrivia ch = false

instance (s : Text) : Decidable (Solid s) := by
  unfold Solid
  infer_instance

/-! ## Texts -/

theorem Dropped.suffix {x : Extent} {s s' : Text} (h : Dropped x s s') : ∃ u, s = u ++ s' := by
  induction h with
  | none s => exact ⟨[], rfl⟩
  | @white ch s s' hch h ih =>
      obtain ⟨u, rfl⟩ := ih
      exact ⟨ch :: u, rfl⟩
  | @line body s s' hbody h ih =>
      obtain ⟨u, rfl⟩ := ih
      exact ⟨';' :: (body ++ '\n' :: u), by simp⟩
  | @lastLine body hbody => exact ⟨';' :: body, by simp⟩
  | comment h₁ h₂ h₃ ih₁ ih₂ ih₃ =>
      obtain ⟨u, rfl⟩ := ih₁
      obtain ⟨v, rfl⟩ := ih₂
      obtain ⟨w, rfl⟩ := ih₃
      exact ⟨'#' :: ';' :: (u ++ (v ++ w)), by simp⟩
  | @word name r h => exact ⟨name, rfl⟩
  | @digits run r h => exact ⟨run, rfl⟩
  | @group s s₁ s' h₁ h₂ ih₁ ih₂ =>
      obtain ⟨u, rfl⟩ := ih₁
      obtain ⟨v, rfl⟩ := ih₂
      exact ⟨'(' :: (u ++ (v ++ [')'])), by simp⟩
  | nil s => exact ⟨[], rfl⟩
  | cons h₁ h₂ h₃ ih₁ ih₂ ih₃ =>
      obtain ⟨u, rfl⟩ := ih₁
      obtain ⟨v, rfl⟩ := ih₂
      obtain ⟨w, rfl⟩ := ih₃
      exact ⟨u ++ (v ++ w), by simp⟩

/-- Where nothing is left, nothing is dropped. -/
theorem Dropped.nil_left {x : Extent} {s' : Text} (h : Dropped x [] s') : s' = [] := by
  obtain ⟨u, hu⟩ := h.suffix
  exact (List.append_eq_nil_iff.mp hu.symm).2

theorem Dropped.ne_nil {x : Extent} {s s' : Text} (h : Dropped x s s') (hne : s' ≠ []) :
    s ≠ [] := by
  rintro rfl
  exact hne h.nil_left

/-- A class of characters without those of trivia. -/
theorem startsTrivia_eq_false {test : Char → Bool}
    (hnot : ∀ x ∈ whitespace ++ [';', '#'], test x = false) {ch : Char} (h : test ch = true) :
    startsTrivia ch = false := by
  by_cases hs : startsTrivia ch = true
  · rw [hnot ch (List.contains_iff_mem.mp hs)] at h
    cases h
  · simpa using hs

theorem startsTrivia_of_isWordStart {ch : Char} (h : isWordStart ch = true) :
    startsTrivia ch = false :=
  startsTrivia_eq_false (by decide) h

theorem startsTrivia_of_isDigit {ch : Char} (h : isDigit ch = true) : startsTrivia ch = false :=
  startsTrivia_eq_false (by decide) h

theorem solid_cons {ch : Char} (h : startsTrivia ch = false) (s : Text) : Solid (ch :: s) := by
  intro x hx
  cases hx
  exact h

/-- A word, a run of digits and a parenthesis are solid. -/
theorem Dropped.solid {s s' : Text} (h : Dropped .datum s s') : Solid s ∧ s ≠ [] := by
  cases h with
  | @word name r h =>
      rw [wordPrefix_eq] at h
      by_cases hs : startsWord (name ++ s') = true
      · cases hn : name ++ s' with
        | nil => rw [hn] at hs; revert hs; decide
        | cons ch t =>
            rw [hn] at hs
            exact ⟨solid_cons (startsTrivia_of_isWordStart (isWordStart_of_startsWord hs)) t,
              List.cons_ne_nil _ _⟩
      · rw [if_neg hs] at h
        cases h
  | @digits run r h =>
      obtain ⟨r', hr, hne, hall, -⟩ := digitPrefix_eq_some_iff.mp h
      obtain ⟨ch, t, rfl⟩ := List.exists_cons_of_ne_nil hne
      exact ⟨solid_cons (startsTrivia_of_isDigit (hall ch (by simp))) _, List.cons_ne_nil _ _⟩
  | group h₁ h₂ => exact ⟨solid_cons (by decide) _, List.cons_ne_nil _ _⟩

/-! ## What was skipped -/

namespace Grammar

variable {source : String} {k : Nat} {c d : Cursor}

/-- One piece of trivia. -/
def triviaItem : PieParser Unit :=
  Parser.choice (whitespace.map (fun ch => ignored (.char ch))
    ++ [lineComment, datumComment skip innerDatum])

theorem eval_skip_ok {u : Unit} (h : skip.eval (rules.call source k) source c = .ok u d) :
    ∃ j, k = j + 1 ∧ trivia.eval (rules.call source j) source c = .ok () d := by
  cases k with
  | zero => cases h
  | succ j => exact ⟨j, rfl, h⟩

theorem eval_lineComment_ok {u : Unit}
    (h : lineComment.eval (rules.call source k) source c = .ok u d) :
    ∃ body, '\n' ∉ body ∧ (c.rest = ';' :: (body ++ '\n' :: d.rest) ∨
      (c.rest = ';' :: body ∧ d.rest = [])) := by
  obtain ⟨run, d₁, hstart, hend⟩ := Parser.eval_andThen_ok (Parser.eval_describe_ok h)
  obtain ⟨semi, c₁, hsemi, hrun⟩ := Parser.eval_andThen_ok hstart
  obtain ⟨-, ⟨r, hr⟩, rfl⟩ := eval_char_ok _ _ hsemi
  have hc₁ := Cursor.rest_skip (u := [';']) (r := r) hr
  cases hrun
  rw [hc₁] at hend
  have hsplit : r = r.takeWhile (· ≠ '\n') ++ r.dropWhile (· ≠ '\n') :=
    (List.takeWhile_append_dropWhile).symm
  have hd₁ := Cursor.rest_skip (hc₁.trans hsplit)
  refine ⟨r.takeWhile (· ≠ '\n'), fun hmem => ?_, ?_⟩
  · simpa using List.mem_takeWhile_imp hmem
  · rcases Parser.eval_orElse_ok hend with hend | hend
    · obtain ⟨x, hnewline, -⟩ := Parser.eval_map_ok hend
      obtain ⟨-, ⟨r', hr'⟩, rfl⟩ := eval_char_ok _ _ hnewline
      have hd := Cursor.rest_skip (u := ['\n']) (r := r') hr'
      refine Or.inl ?_
      rw [hr, hd, ← hr', hd₁, ← hsplit]
    · unfold Parser.eval at hend
      split at hend
      · rename_i hempty
        cases hend
        rw [hd₁]
        unfold Cursor.atEnd at hempty
        rw [hd₁, List.isEmpty_iff] at hempty
        refine Or.inr ⟨?_, hempty⟩
        rw [hr, ← List.append_nil (r.takeWhile _), ← hempty, ← hsplit]
      · cases hend

theorem eval_datumComment_ok {u : Unit}
    (h : (datumComment skip innerDatum).eval (rules.call source k) source c = .ok u d) :
    ∃ c₁ r, c.rest = '#' :: ';' :: r ∧
      skip.eval (rules.call source k) source (c.skip "#;".toList) = .ok () c₁ ∧
        anyDatum.eval (rules.call source k) source c₁ = .ok () d := by
  obtain ⟨v, hbody, -⟩ := Parser.eval_map_ok h
  obtain ⟨x, c₁, hmark, hdatum⟩ := Parser.eval_andThen_ok hbody
  obtain ⟨m, htext, -, hskip⟩ := eval_lexeme_ok hmark
  by_cases hpre : "#;".toList <+: c.rest
  · rw [eval_text_of_isPrefix _ _ hpre, Outcome.ok.injEq] at htext
    obtain ⟨-, rfl⟩ := htext
    obtain ⟨r, hr⟩ := hpre
    exact ⟨c₁, r, hr.symm, hskip, hdatum⟩
  · obtain ⟨f, hf⟩ := eval_text_of_not_isPrefix (rules.call source k) source hpre
    rw [hf] at htext
    cases htext

/-- Trivia were dropped from `c` to `d`, and nothing more can be dropped there. -/
def Skipped (source : String) (k : Nat) (c d : Cursor) : Prop :=
  Dropped .trivia c.rest d.rest ∧ ∃ f, triviaItem.eval (rules.call source k) source d = .fail f

/-- Where nothing can be dropped, nothing is skipped. -/
theorem eval_trivia_of_stuck (h : ∃ f, triviaItem.eval (rules.call source k) source c = .fail f) :
    trivia.eval (rules.call source k) source c = .ok () c := by
  obtain ⟨f, hf⟩ := h
  show ((triviaItem.many).eval (rules.call source k) source c).andThen _ = _
  rw [Parser.eval_many_last (rules.call_reaches source k) hf, Outcome.andThen_ok]

/-- What cannot be dropped under a ceiling cannot be dropped under a higher one. -/
theorem stuck_succ (h : ∃ f, triviaItem.eval (rules.call source k) source c = .fail f) :
    ∃ f, triviaItem.eval (rules.call source (k + 1)) source c = .fail f := by
  obtain ⟨f, hf⟩ := h
  have hup := Parser.eval_upTo (rules.call_upTo source (Nat.le_succ k)) source triviaItem c
  rw [hf] at hup
  exact ⟨f, (hup.eq (by simp)).symm⟩

/-- The parts of a datum that was read. -/
theorem eval_anyDatum_ok {u : Unit} (h : anyDatum.eval (rules.call source k) source c = .ok u d) :
    ∃ m, skip.eval (rules.call source k) source m = .ok () d ∧
      ((∃ name, wordPrefix c.rest = some name ∧ m = c.skip name) ∨
        (∃ run, digitPrefix c.rest = some run ∧ m = c.skip run) ∨
        (ignored (parens skip innerDatum.many)).eval (rules.call source k) source c
          = .ok () m) := by
  obtain ⟨x, hbody, -⟩ := Parser.eval_map_ok h
  obtain ⟨m, hchoice, -, hskip⟩ := eval_lexeme_ok hbody
  refine ⟨m, hskip, ?_⟩
  rcases Parser.eval_orElse_ok hchoice with hchoice | hdigits
  · rcases Parser.eval_orElse_ok hchoice with hgroup | hword
    · exact Or.inr (Or.inr hgroup)
    · obtain ⟨name, hname, -⟩ := Parser.eval_map_ok hword
      exact Or.inl ⟨name, eval_identifier_ok hname⟩
  · obtain ⟨run, hrun, -⟩ := Parser.eval_map_ok hdigits
    exact Or.inr (Or.inl ⟨run, eval_digits_ok hrun⟩)

/-- What holds of the runs under a ceiling: trivia are skipped as far as they go, and a datum is
read with the trivia after it. -/
def SkipsTrivia (source : String) (k : Nat) : Prop :=
  (∀ c d, trivia.eval (rules.call source k) source c = .ok () d → Skipped source k c d) ∧
    ∀ c d, anyDatum.eval (rules.call source k) source c = .ok () d →
      ∃ m, Dropped .datum c.rest m.rest ∧ skip.eval (rules.call source k) source m = .ok () d

theorem skipped_of_eval_skip (ih : ∀ j < k, SkipsTrivia source j)
    (h : skip.eval (rules.call source k) source c = .ok () d) :
    ∃ j, k = j + 1 ∧ Skipped source j c d := by
  obtain ⟨j, rfl, hj⟩ := eval_skip_ok h
  exact ⟨j, rfl, (ih j (Nat.lt_succ_self j)).1 c d hj⟩

theorem dropped_of_rounds (ih : ∀ j < k, SkipsTrivia source j) {us : List Unit}
    (h : Parser.Rounds (innerDatum.eval (rules.call source k) source) c us d) :
    Dropped .data c.rest d.rest := by
  induction h with
  | done h => exact .nil _
  | @next c d e a as h hne hrest ihr =>
      cases k with
      | zero => cases h
      | succ j =>
          obtain ⟨m, hdatum, hskip⟩ := (ih j (Nat.lt_succ_self j)).2 c d h
          obtain ⟨i, rfl, hdropped, -⟩ :=
            skipped_of_eval_skip (fun i hi => ih i (by omega)) hskip
          exact .cons hdatum hdropped ihr

theorem dropped_of_eval_anyDatum (ih : ∀ j < k, SkipsTrivia source j)
    (h : anyDatum.eval (rules.call source k) source c = .ok () d) :
    ∃ m, Dropped .datum c.rest m.rest ∧ skip.eval (rules.call source k) source m = .ok () d := by
  obtain ⟨m, hskip, ⟨name, hname, rfl⟩ | ⟨run, hrun, rfl⟩ | hgroup⟩ := eval_anyDatum_ok h
  · obtain ⟨r, hr, -, -⟩ := wordPrefix_eq_some_iff.mp hname
    refine ⟨c.skip name, ?_, hskip⟩
    rw [hr] at hname
    rw [Cursor.rest_skip hr, hr]
    exact .word hname
  · obtain ⟨r, hr, -, -⟩ := digitPrefix_eq_some_iff.mp hrun
    refine ⟨c.skip run, ?_, hskip⟩
    rw [hr] at hrun
    rw [Cursor.rest_skip hr, hr]
    exact .digits hrun
  · -- The group swallows the trivia after it, so the token around it finds none.
    obtain ⟨us, hparens, -⟩ := Parser.eval_map_ok hgroup
    obtain ⟨c₁, e, ⟨r, hr⟩, hopen, hmany, ⟨r', hr'⟩, hclose⟩ := eval_parens_ok hparens
    obtain ⟨j, rfl, hbefore, -⟩ := skipped_of_eval_skip ih hopen
    obtain ⟨j', hj', -, hstuck⟩ := skipped_of_eval_skip ih hclose
    obtain rfl : j = j' := by omega
    have hsame := eval_trivia_of_stuck hstuck
    have hdata := dropped_of_rounds ih (Parser.eval_many_ok (rules.call_reaches source _) hmany)
    have hmd : m = d := by
      change trivia.eval (rules.call source j) source m = .ok () d at hskip
      rw [hsame, Outcome.ok.injEq] at hskip
      exact hskip.2
    refine ⟨e.skip [')'], ?_, hmd ▸ hclose⟩
    rw [Cursor.rest_skip (u := [')']) hr', hr]
    rw [Cursor.rest_skip (u := ['(']) hr] at hbefore
    exact .group hbefore (hr' ▸ hdata)

theorem skipped_of_rounds (ih : ∀ j < k, SkipsTrivia source j) {us : List Unit}
    (h : Parser.Rounds (triviaItem.eval (rules.call source k) source) c us d) :
    Skipped source k c d := by
  induction h with
  | @done c f h => exact ⟨.none _, f, h⟩
  | @next c d e a as h hne hrest ihr =>
      obtain ⟨hdropped, hstuck⟩ := ihr
      refine ⟨?_, hstuck⟩
      obtain ⟨p, hp, hok⟩ := Parser.eval_choice_ok h
      rcases List.mem_append.mp hp with hp | hp
      · obtain ⟨ch, hch, rfl⟩ := List.mem_map.mp hp
        obtain ⟨x, hchar, -⟩ := Parser.eval_map_ok hok
        obtain ⟨-, ⟨r, hr⟩, rfl⟩ := eval_char_ok _ _ hchar
        rw [Cursor.rest_skip (u := [ch]) hr] at hdropped
        rw [hr]
        exact .white hch hdropped
      · simp only [List.mem_cons, List.not_mem_nil, or_false] at hp
        rcases hp with rfl | rfl
        · obtain ⟨body, hbody, hline | ⟨hline, hlast⟩⟩ := eval_lineComment_ok hok
          · rw [hline]
            exact .line hbody hdropped
          · rw [hlast] at hdropped
            rw [hline, hdropped.nil_left]
            exact .lastLine hbody
        · obtain ⟨c₁, r, hr, hskip, hdatum⟩ := eval_datumComment_ok hok
          obtain ⟨m, hm, hafter⟩ := dropped_of_eval_anyDatum ih hdatum
          obtain ⟨j, rfl, hbefore, -⟩ := skipped_of_eval_skip ih hskip
          obtain ⟨j', hj', hrest', hend⟩ := skipped_of_eval_skip ih hafter
          obtain rfl : j = j' := by omega
          -- The trivia after the datum went as far as they go, so this was the last round.
          have hde : d = e := by
            obtain ⟨f, hf⟩ := stuck_succ hend
            cases hrest with
            | done h' => rfl
            | next h' _ _ => rw [hf] at h'; cases h'
          rw [Cursor.rest_skip (u := "#;".toList) hr] at hbefore
          rw [hr, ← hde]
          exact .comment hbefore hm hrest'

theorem skipsTrivia (source : String) (k : Nat) : SkipsTrivia source k := by
  induction k using Nat.strongRecOn with
  | ind k ih =>
      refine ⟨fun c d h => ?_, fun c d h => dropped_of_eval_anyDatum ih h⟩
      obtain ⟨us, hmany, -⟩ := Parser.eval_map_ok h
      exact skipped_of_rounds ih (Parser.eval_many_ok (rules.call_reaches source k) hmany)

end Grammar

/-- Trivia stand between the two cursors. -/
structure Cursor.Gap (c d : Cursor) : Prop where
  reaches : c.Reaches d
  dropped : Dropped .trivia c.rest d.rest

namespace Grammar

variable {source : String} {k : Nat} {c d : Cursor}

/-- What the trivia parser has skipped is trivia. -/
theorem gap_of_eval_trivia (h : trivia.eval (rules.call source k) source c = .ok () d) :
    c.Gap d := by
  have hreach := Parser.reaches_of_eval (rules.call_reaches source k) h
  exact ⟨hreach, ((skipsTrivia source k).1 c d h).1⟩

theorem gap_of_eval_skip (h : skip.eval (rules.call source k) source c = .ok () d) : c.Gap d := by
  obtain ⟨j, rfl, hj⟩ := eval_skip_ok h
  exact gap_of_eval_trivia hj

/-- After trivia were skipped there are none. -/
theorem eval_skip_again (h : skip.eval (rules.call source k) source c = .ok () d) :
    skip.eval (rules.call source k) source d = .ok () d := by
  obtain ⟨j, rfl, hj⟩ := eval_skip_ok h
  exact eval_trivia_of_stuck ((skipsTrivia source j).1 c d hj).2

end Grammar

end PieSyntax
