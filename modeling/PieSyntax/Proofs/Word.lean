import Mathlib.Data.List.TakeWhile
import PieSyntax.Lexical.Token
import PieSyntax.Proofs.Reach

/-!
# Words and runs of digits

What the parsers of identifiers and of digits read, said of texts.  `wordPrefix s` is the identifier
at the start of `s`, as long as it goes, and `digitPrefix s` the run of digits there; the two
parsers read exactly these, and fail where there are none.

A text that starts with a character which cannot go on in an identifier is a *boundary*: words and
digits before it end there, whatever comes later.

## Main results

* `eval_identifier_of_some`, `eval_identifier_of_none` — the parser of identifiers.
* `eval_digits_of_some`, `eval_digits_of_none` — the parser of digits.
* `wordPrefix_append`, `digitPrefix_append` — a word or a run of digits before a boundary.
-/

namespace PieSyntax

/-- The signs that may start an identifier without being initial characters. -/
def wordSigns : List Text := ["+".toList, "-".toList, "...".toList]

/-- The identifier at the start of a text, as long as it goes. -/
def wordPrefix (s : Text) : Option Text :=
  match s.head? with
  | none => none
  | some c =>
    if isInitial c then some (c :: s.tail.takeWhile isSubsequent)
    else (wordSigns.find? (·.isPrefixOf s)).map fun sign =>
      sign ++ (s.drop sign.length).takeWhile isSubsequent

/-- The run of digits at the start of a text, as long as it goes. -/
def digitPrefix (s : Text) : Option Text :=
  let run := s.takeWhile isDigit
  if run = [] then none else some run

/-- The text does not go on with a character of identifiers. -/
def Boundary (s : Text) : Prop := ∀ c ∈ s.head?, isSubsequent c = false

instance (s : Text) : Decidable (Boundary s) := by
  unfold Boundary
  infer_instance

variable {N : Type} {R : N → Type} (call : (n : N) → Cursor → Outcome (R n)) (source : String)

/-! ## Single characters and texts -/

theorem readChar_of_test {test : Char → Bool} (e : Expectation) {c : Cursor} {ch : Char}
    {r : Text} (h : c.rest = ch :: r) (ht : test ch = true) :
    c.readChar test e = .ok ch (c.skip [ch]) := by
  simp [Cursor.readChar, Cursor.skip, h, ht, Position.advance_cons]

theorem readChar_of_head {test : Char → Bool} (e : Expectation) {c : Cursor}
    (h : ∀ ch ∈ c.rest.head?, test ch = false) : ∃ f, c.readChar test e = .fail f := by
  unfold Cursor.readChar
  split
  · exact ⟨_, rfl⟩
  · rename_i ch r hr
    rw [h ch (by rw [hr]; rfl)]
    exact ⟨_, rfl⟩

theorem eval_char_of_head {c : Cursor} {ch : Char} {r : Text} (h : c.rest = ch :: r) :
    (Parser.char ch : Parser N R Char).eval call source c = .ok ch (c.skip [ch]) :=
  readChar_of_test _ h (by simp)

theorem eval_char_of_not_head {c : Cursor} {ch : Char} (h : c.rest.head? ≠ some ch) :
    ∃ f, (Parser.char ch : Parser N R Char).eval call source c = .fail f := by
  apply readChar_of_head
  intro ch' hch'
  have hne : ch' ≠ ch := by
    intro he
    exact h (he ▸ hch')
  simpa using hne

theorem eval_char_ok {c d : Cursor} {ch a : Char}
    (h : (Parser.char ch : Parser N R Char).eval call source c = .ok a d) :
    a = ch ∧ (∃ r, c.rest = ch :: r) ∧ d = c.skip [ch] := by
  by_cases hhead : c.rest.head? = some ch
  · obtain ⟨r, hr⟩ := List.head?_eq_some_iff.mp hhead
    rw [eval_char_of_head call source hr] at h
    cases h
    exact ⟨rfl, ⟨r, hr⟩, rfl⟩
  · obtain ⟨f, hf⟩ := eval_char_of_not_head call source hhead
    rw [hf] at h
    cases h

theorem readText_of_isPrefix {s : Text} {c : Cursor} (h : s <+: c.rest) :
    c.readText s = .ok () (c.skip s) := by
  induction s generalizing c with
  | nil => rw [Cursor.skip_nil, Cursor.readText]
  | cons ch s ih =>
      obtain ⟨r, hr⟩ := h
      have hstep : c.rest = ch :: (s ++ r) := hr.symm
      have hrest := Cursor.rest_skip (u := [ch]) (r := s ++ r) hstep
      rw [Cursor.readText, readChar_of_test _ hstep (by simp), Outcome.andThen_ok,
        ih ⟨r, hrest.symm⟩]
      rw [Cursor.skip_skip, List.singleton_append]

theorem readText_of_not_isPrefix {s : Text} {c : Cursor} (h : ¬ s <+: c.rest) :
    ∃ f, c.readText s = .fail f := by
  induction s generalizing c with
  | nil => exact absurd (List.nil_prefix) h
  | cons ch s ih =>
      rw [Cursor.readText]
      by_cases hhead : c.rest.head? = some ch
      · obtain ⟨r, hr⟩ := List.head?_eq_some_iff.mp hhead
        have hrest := Cursor.rest_skip (u := [ch]) (r := r) hr
        rw [readChar_of_test _ hr (by simp), Outcome.andThen_ok]
        apply ih
        rw [hrest]
        intro hs
        exact h (hr ▸ List.cons_prefix_cons.mpr ⟨rfl, hs⟩)
      · have hother : ∀ ch' ∈ c.rest.head?, decide (ch' = ch) = false := by
          intro ch' hch'
          have hne : ch' ≠ ch := fun he => hhead (he ▸ hch')
          simpa using hne
        obtain ⟨f, hf⟩ := readChar_of_head (.ofChar ch) hother
        exact ⟨f, by rw [hf, Outcome.andThen_fail]⟩

theorem eval_text_of_isPrefix {s : Text} {c : Cursor} (h : s <+: c.rest) :
    (Parser.text s : Parser N R Text).eval call source c = .ok s (c.skip s) := by
  rw [Parser.eval, readText_of_isPrefix h, Outcome.andThen_ok]

theorem eval_text_of_not_isPrefix {s : Text} {c : Cursor} (h : ¬ s <+: c.rest) :
    ∃ f, (Parser.text s : Parser N R Text).eval call source c = .fail f := by
  obtain ⟨f, hf⟩ := readText_of_not_isPrefix h
  exact ⟨f, by rw [Parser.eval, hf, Outcome.andThen_fail]⟩

/-- A repetition over a class of characters reads the longest run of them. -/
theorem eval_many_satisfy (description : String) (test : Char → Bool) (c : Cursor) :
    (Parser.satisfy description test : Parser N R Char).many.eval call source c =
      .ok (c.rest.takeWhile test) (c.skip (c.rest.takeWhile test)) := by
  -- The text left is fuel enough, since every round takes a character of it.
  have hloop : ∀ (label : Unit → String) (fuel : Text) (c : Cursor) (done : List Char),
      c.rest.length ≤ fuel.length →
      Outcome.manyLoop (fun c => c.readChar test (.ofDescription description)) label fuel c done =
        .ok (done.reverse ++ c.rest.takeWhile test) (c.skip (c.rest.takeWhile test)) := by
    intro label fuel
    induction fuel with
    | nil =>
        intro c done hlen
        have hnil : c.rest = [] := List.eq_nil_of_length_eq_zero (Nat.le_zero.mp hlen)
        simp [Outcome.manyLoop, Cursor.readChar, Outcome.failAt, hnil]
    | cons x fuel ih =>
        intro c done hlen
        unfold Outcome.manyLoop
        cases hr : c.rest with
        | nil => simp [Cursor.readChar, Outcome.failAt, hr]
        | cons ch r =>
            by_cases ht : test ch = true
            · have hrest := Cursor.rest_skip (u := [ch]) (r := r) hr
              have hoff : ¬ (c.skip [ch]).offset = c.offset := by
                simp [Cursor.skip]
              rw [readChar_of_test _ hr ht]
              simp only [hoff, if_false]
              rw [ih (c.skip [ch]) (ch :: done) (by rw [hrest]; simp [hr] at hlen ⊢; omega)]
              simp [ht, hrest]
            · have hf : test ch = false := by simpa using ht
              simp [Cursor.readChar, Outcome.failAt, hr, hf]
  exact hloop _ c.rest c [] (Nat.le_refl _)

/-! ## Words -/

theorem wordPrefix_of_isInitial {c : Char} (h : isInitial c = true) (s : Text) :
    wordPrefix (c :: s) = some (c :: s.takeWhile isSubsequent) := by
  simp [wordPrefix, h]

/-- The signs, in the order in which they are tried. -/
def sign : Parser N R Text :=
  Parser.choice [.text "+".toList, .text "-".toList, .text "...".toList]

theorem eval_sign (c : Cursor) : (sign : Parser N R Text).eval call source c =
    (((Parser.text "+".toList : Parser N R Text).eval call source c).orElse fun _ =>
      (Parser.text "-".toList : Parser N R Text).eval call source c).orElse fun _ =>
        (Parser.text "...".toList : Parser N R Text).eval call source c := by
  rw [sign, Parser.eval_choice, Outcome.choose_eq_foldl]
  rfl

/-- Among the signs, the first that comes next is read. -/
theorem eval_sign_of_some {c : Cursor} {s : Text}
    (h : wordSigns.find? (·.isPrefixOf c.rest) = some s) :
    (sign : Parser N R Text).eval call source c = .ok s (c.skip s) := by
  rw [eval_sign]
  simp only [wordSigns, List.find?_cons, List.find?_nil] at h
  by_cases hplus : "+".toList <+: c.rest
  · rw [eval_text_of_isPrefix call source hplus]
    simp only [List.isPrefixOf_iff_prefix.mpr hplus, Option.some.injEq] at h
    subst h
    rfl
  · obtain ⟨f, hf⟩ := eval_text_of_not_isPrefix (N := N) (R := R) call source hplus
    simp only [Bool.eq_false_iff.mpr (mt List.isPrefixOf_iff_prefix.mp hplus)] at h
    rw [hf]
    by_cases hminus : "-".toList <+: c.rest
    · rw [eval_text_of_isPrefix call source hminus]
      simp only [List.isPrefixOf_iff_prefix.mpr hminus, Option.some.injEq] at h
      subst h
      rfl
    · obtain ⟨g, hg⟩ := eval_text_of_not_isPrefix (N := N) (R := R) call source hminus
      simp only [Bool.eq_false_iff.mpr (mt List.isPrefixOf_iff_prefix.mp hminus)] at h
      rw [hg]
      by_cases hdots : "...".toList <+: c.rest
      · rw [eval_text_of_isPrefix call source hdots]
        simp only [List.isPrefixOf_iff_prefix.mpr hdots, Option.some.injEq] at h
        subst h
        rfl
      · simp only [Bool.eq_false_iff.mpr (mt List.isPrefixOf_iff_prefix.mp hdots)] at h
        cases h

theorem eval_sign_of_none {c : Cursor} (h : wordSigns.find? (·.isPrefixOf c.rest) = none) :
    ∃ f, (sign : Parser N R Text).eval call source c = .fail f := by
  rw [eval_sign]
  have hnot : ∀ s ∈ wordSigns, ¬ s <+: c.rest := by
    intro s hs hpre
    exact List.find?_eq_none.mp h s hs (List.isPrefixOf_iff_prefix.mpr hpre)
  obtain ⟨f, hf⟩ := eval_text_of_not_isPrefix (N := N) (R := R) call source
    (hnot "+".toList (by decide))
  obtain ⟨g, hg⟩ := eval_text_of_not_isPrefix (N := N) (R := R) call source
    (hnot "-".toList (by decide))
  obtain ⟨k, hk⟩ := eval_text_of_not_isPrefix (N := N) (R := R) call source
    (hnot "...".toList (by decide))
  exact ⟨_, by rw [hf, hg, hk]; rfl⟩

/-- An identifier that starts with an initial character. -/
theorem eval_normalIdentifier {c : Cursor} {ch : Char} {r : Text} (hr : c.rest = ch :: r)
    (h : isInitial ch = true) :
    (normalIdentifier : Parser N R Text).eval call source c =
      .ok (ch :: r.takeWhile isSubsequent) (c.skip (ch :: r.takeWhile isSubsequent)) := by
  show ((c.readChar isInitial _).andThen fun a d => _) = _
  rw [readChar_of_test _ hr h, Outcome.andThen_ok]
  show ((Parser.many _).eval call source (c.skip [ch])).andThen _ = _
  have hrest := Cursor.rest_skip (u := [ch]) (r := r) hr
  rw [eval_many_satisfy, Outcome.andThen_ok, hrest, Cursor.skip_skip]
  rfl

/-- An identifier that starts with a sign. -/
theorem eval_peculiarIdentifier {c : Cursor} {s : Text}
    (h : wordSigns.find? (·.isPrefixOf c.rest) = some s) :
    (peculiarIdentifier : Parser N R Text).eval call source c =
      .ok (s ++ (c.rest.drop s.length).takeWhile isSubsequent)
        (c.skip (s ++ (c.rest.drop s.length).takeWhile isSubsequent)) := by
  show ((sign : Parser N R Text).eval call source c).andThen _ = _
  rw [eval_sign_of_some call source h, Outcome.andThen_ok]
  show ((Parser.many _).eval call source (c.skip s)).andThen _ = _
  rw [eval_many_satisfy, Outcome.andThen_ok, Cursor.skip_skip]
  rfl

theorem eval_normalIdentifier_of_head {c : Cursor}
    (h : ∀ ch ∈ c.rest.head?, isInitial ch = false) :
    ∃ f, (normalIdentifier : Parser N R Text).eval call source c = .fail f := by
  obtain ⟨f, hf⟩ := readChar_of_head (.ofDescription "identifier-initial character") h
  refine ⟨f, ?_⟩
  show (c.readChar isInitial (.ofDescription "identifier-initial character")).andThen _ = _
  rw [hf, Outcome.andThen_fail]

/-- The parser of identifiers reads the identifier that comes next. -/
theorem eval_identifier_of_some {c : Cursor} {name : Text} (h : wordPrefix c.rest = some name) :
    (identifier : Parser N R Text).eval call source c = .ok name (c.skip name) := by
  rw [identifier, Parser.eval_orElse]
  cases hr : c.rest with
  | nil => simp [wordPrefix, hr] at h
  | cons ch r =>
      by_cases hi : isInitial ch = true
      · rw [hr, wordPrefix_of_isInitial hi, Option.some.injEq] at h
        rw [eval_normalIdentifier call source hr hi, ← h]
        rfl
      · have hhead : ∀ x ∈ c.rest.head?, isInitial x = false := by
          intro x hx
          rw [hr, List.head?_cons, Option.mem_some_iff] at hx
          simpa [← hx] using hi
        obtain ⟨f, hf⟩ := eval_normalIdentifier_of_head (N := N) (R := R) call source hhead
        rw [hr] at h
        simp only [wordPrefix, List.head?_cons, hi] at h
        obtain ⟨s, hs, rfl⟩ := Option.map_eq_some_iff.mp h
        rw [← hr] at hs ⊢
        rw [hf]
        simp only [Outcome.orElse]
        rw [eval_peculiarIdentifier call source hs]

theorem eval_identifier_of_none {c : Cursor} (h : wordPrefix c.rest = none) :
    ∃ f, (identifier : Parser N R Text).eval call source c = .fail f := by
  have hhead : ∀ x ∈ c.rest.head?, isInitial x = false := by
    intro x hx
    by_cases hi : isInitial x = true
    · obtain ⟨r, hr⟩ := List.head?_eq_some_iff.mp hx
      rw [hr, wordPrefix_of_isInitial hi] at h
      cases h
    · simpa using hi
  have hfind : wordSigns.find? (·.isPrefixOf c.rest) = none := by
    cases hr : c.rest with
    | nil => decide
    | cons ch r =>
        have hi : isInitial ch = false := hhead ch (by rw [hr]; rfl)
        rw [hr] at h
        simpa [wordPrefix, hi] using h
  obtain ⟨f, hf⟩ := eval_normalIdentifier_of_head (N := N) (R := R) call source hhead
  obtain ⟨g, hg⟩ := eval_sign_of_none (N := N) (R := R) call source hfind
  refine ⟨f.furthest g, ?_⟩
  have hpeculiar : (peculiarIdentifier : Parser N R Text).eval call source c = .fail g := by
    show ((sign : Parser N R Text).eval call source c).andThen _ = _
    rw [hg, Outcome.andThen_fail]
  rw [identifier, Parser.eval_orElse, hf, hpeculiar]
  rfl

/-! ## Words as texts -/

/-- A text that is an identifier from its first character to its last. -/
def IsWord (name : Text) : Prop := wordPrefix name = some name

instance (name : Text) : Decidable (IsWord name) :=
  inferInstanceAs (Decidable (wordPrefix name = some name))

/-- Whether a text starts as an identifier does. -/
def startsWord (s : Text) : Bool := s.head?.any isInitial || wordSigns.any (·.isPrefixOf s)

theorem isSubsequent_of_mem_sign {s : Text} (hs : s ∈ wordSigns) :
    ∀ c ∈ s, isSubsequent c = true := by
  have hall : ∀ s ∈ wordSigns, ∀ c ∈ s, isSubsequent c = true := by decide
  exact hall s hs

/-- What may start an identifier may also go on in it, so an identifier is a run of characters of
one class. -/
theorem wordPrefix_eq (s : Text) :
    wordPrefix s = if startsWord s then some (s.takeWhile isSubsequent) else none := by
  cases s with
  | nil => decide
  | cons c t =>
      by_cases hi : isInitial c = true
      · have hsub := isSubsequent_of_isInitial hi
        simp [wordPrefix_of_isInitial hi, startsWord, hi, hsub]
      · have hfalse : isInitial c = false := by simpa using hi
        simp only [wordPrefix, startsWord, List.head?_cons, hfalse, Option.any_some,
          Bool.false_or, Bool.false_eq_true, if_false]
        cases hfind : wordSigns.find? (·.isPrefixOf (c :: t)) with
        | none =>
            have hany : wordSigns.any (·.isPrefixOf (c :: t)) = false := by
              rw [List.any_eq_false]
              exact List.find?_eq_none.mp hfind
            simp [hany]
        | some s =>
            have hmem := List.mem_of_find?_eq_some hfind
            have hpre := List.find?_some hfind
            have hany : wordSigns.any (·.isPrefixOf (c :: t)) = true :=
              List.any_eq_true.mpr ⟨s, hmem, hpre⟩
            obtain ⟨r, hr⟩ := List.isPrefixOf_iff_prefix.mp hpre
            rw [hany, ← hr, List.takeWhile_append_of_pos (isSubsequent_of_mem_sign hmem)]
            simp

theorem boundary_dropWhile (s : Text) : Boundary (s.dropWhile isSubsequent) := by
  intro c hc
  have hnot := List.head?_dropWhile_not isSubsequent s
  rw [Option.mem_def.mp hc] at hnot
  exact hnot

theorem takeWhile_of_boundary {s : Text} (h : Boundary s) : s.takeWhile isSubsequent = [] := by
  cases s with
  | nil => rfl
  | cons c t => rw [List.takeWhile_cons, h c rfl, if_neg (by simp)]

theorem startsWord_append {s : Text} (h : startsWord s = true) (r : Text) :
    startsWord (s ++ r) = true := by
  unfold startsWord at h ⊢
  rw [Bool.or_eq_true] at h ⊢
  rcases h with h | h
  · refine Or.inl ?_
    cases s with
    | nil => simp at h
    | cons c t => exact h
  · refine Or.inr ?_
    obtain ⟨x, hx, hpre⟩ := List.any_eq_true.mp h
    refine List.any_eq_true.mpr ⟨x, hx, ?_⟩
    rw [List.isPrefixOf_iff_prefix] at hpre ⊢
    exact hpre.trans (List.prefix_append s r)

theorem startsWord_takeWhile {s : Text} (h : startsWord s = true) :
    startsWord (s.takeWhile isSubsequent) = true := by
  unfold startsWord at h ⊢
  rw [Bool.or_eq_true] at h ⊢
  rcases h with h | h
  · refine Or.inl ?_
    cases s with
    | nil => simp at h
    | cons c t =>
        have hi : isInitial c = true := by simpa using h
        simp [isSubsequent_of_isInitial hi, hi]
  · refine Or.inr ?_
    obtain ⟨x, hx, hpre⟩ := List.any_eq_true.mp h
    refine List.any_eq_true.mpr ⟨x, hx, ?_⟩
    obtain ⟨r, hr⟩ := List.isPrefixOf_iff_prefix.mp hpre
    rw [List.isPrefixOf_iff_prefix, ← hr,
      List.takeWhile_append_of_pos (isSubsequent_of_mem_sign hx)]
    exact List.prefix_append x _

/-- The identifier at the start of a text is a word before a boundary. -/
theorem wordPrefix_eq_some_iff {s name : Text} :
    wordPrefix s = some name ↔ ∃ r, s = name ++ r ∧ IsWord name ∧ Boundary r := by
  constructor
  · intro h
    rw [wordPrefix_eq] at h
    by_cases hs : startsWord s = true
    · rw [if_pos hs, Option.some.injEq] at h
      refine ⟨s.dropWhile isSubsequent, ?_, ?_, boundary_dropWhile s⟩
      · rw [← h, List.takeWhile_append_dropWhile]
      · have hname := startsWord_takeWhile hs
        rw [h] at hname
        rw [IsWord, wordPrefix_eq, if_pos hname, ← h, List.takeWhile_idem]
    · rw [if_neg hs] at h
      cases h
  · rintro ⟨r, rfl, hname, hr⟩
    rw [IsWord, wordPrefix_eq] at hname
    by_cases hs : startsWord name = true
    · rw [if_pos hs, Option.some.injEq] at hname
      have hall : ∀ c ∈ name, isSubsequent c = true := by
        intro c hc
        rw [← hname] at hc
        exact List.mem_takeWhile_imp hc
      rw [wordPrefix_eq, if_pos (startsWord_append hs r), List.takeWhile_append_of_pos hall,
        takeWhile_of_boundary hr, List.append_nil]
    · rw [if_neg hs] at hname
      cases hname

theorem IsWord.subsequent {name : Text} (h : IsWord name) :
    ∀ c ∈ name, isSubsequent c = true := by
  intro c hc
  rw [IsWord, wordPrefix_eq] at h
  by_cases hs : startsWord name = true
  · rw [if_pos hs, Option.some.injEq] at h
    rw [← h] at hc
    exact List.mem_takeWhile_imp hc
  · rw [if_neg hs] at h
    cases h

theorem IsWord.ne_nil {name : Text} (h : IsWord name) : name ≠ [] := by
  rintro rfl
  revert h
  decide

/-- The characters with which an identifier may start. -/
def isWordStart (c : Char) : Bool := isInitial c || c = '+' || c = '-' || c = '.'

theorem isWordStart_of_startsWord {c : Char} {t : Text} (h : startsWord (c :: t) = true) :
    isWordStart c = true := by
  unfold startsWord at h
  rw [Bool.or_eq_true] at h
  rcases h with h | h
  · have hi : isInitial c = true := by simpa using h
    simp [isWordStart, hi]
  · obtain ⟨x, hx, hpre⟩ := List.any_eq_true.mp h
    simp only [wordSigns, List.mem_cons, List.not_mem_nil, or_false] at hx
    rcases hx with rfl | rfl | rfl
    all_goals
      have hc := List.cons_prefix_cons.mp (List.isPrefixOf_iff_prefix.mp hpre)
      rw [← hc.1]
      decide

theorem wordPrefix_eq_none_of_head {s : Text} (h : ∀ c ∈ s.head?, isWordStart c = false) :
    wordPrefix s = none := by
  rw [wordPrefix_eq]
  cases s with
  | nil => decide
  | cons c t =>
      refine if_neg fun hs => ?_
      have hc := isWordStart_of_startsWord hs
      rw [h c rfl] at hc
      cases hc

/-! ## Digits -/

theorem digitPrefix_eq_some_iff {s run : Text} :
    digitPrefix s = some run ↔ ∃ r, s = run ++ r ∧ run ≠ [] ∧ (∀ c ∈ run, isDigit c = true) ∧
      ∀ c ∈ r.head?, isDigit c = false := by
  constructor
  · intro h
    simp only [digitPrefix] at h
    by_cases hnil : s.takeWhile isDigit = []
    · rw [if_pos hnil] at h
      cases h
    · rw [if_neg hnil, Option.some.injEq] at h
      refine ⟨s.dropWhile isDigit, ?_, ?_, ?_, ?_⟩
      · rw [← h, List.takeWhile_append_dropWhile]
      · rw [← h]
        exact hnil
      · intro c hc
        rw [← h] at hc
        exact List.mem_takeWhile_imp hc
      · intro c hc
        have hnot := List.head?_dropWhile_not isDigit s
        rw [Option.mem_def.mp hc] at hnot
        exact hnot
  · rintro ⟨r, rfl, hne, hall, hr⟩
    have hrun : (run ++ r).takeWhile isDigit = run := by
      rw [List.takeWhile_append_of_pos hall]
      cases r with
      | nil => simp
      | cons c t => rw [List.takeWhile_cons, hr c rfl]; simp
    simp only [digitPrefix, hrun]
    rw [if_neg hne]

theorem digitPrefix_eq_none_of_head {s : Text} (h : ∀ c ∈ s.head?, isDigit c = false) :
    digitPrefix s = none := by
  cases s with
  | nil => rfl
  | cons c t => simp [digitPrefix, h c rfl]

/-- The parser of digits reads the digits that come next. -/
theorem eval_digits_of_some {c : Cursor} {run : Text} (h : digitPrefix c.rest = some run) :
    (digits : Parser N R Text).eval call source c = .ok run (c.skip run) := by
  simp only [digitPrefix] at h
  cases hr : c.rest with
  | nil => simp [hr] at h
  | cons ch r =>
      by_cases hd : isDigit ch = true
      · have hrun : run = ch :: r.takeWhile isDigit := by
          rw [hr, List.takeWhile_cons, if_pos hd, if_neg (List.cons_ne_nil _ _)] at h
          exact (Option.some.inj h).symm
        have hrest := Cursor.rest_skip (u := [ch]) (r := r) hr
        have hmany : (Parser.satisfy "digit" isDigit : Parser N R Char).many1.eval call source c =
            .ok run (c.skip run) := by
          show ((c.readChar isDigit _).andThen fun a d => _) = _
          rw [readChar_of_test _ hr hd, Outcome.andThen_ok]
          show ((Parser.many _).eval call source (c.skip [ch])).andThen _ = _
          rw [eval_many_satisfy, Outcome.andThen_ok, hrest, Cursor.skip_skip, hrun]
          rfl
        unfold digits Parser.describe
        rw [Parser.eval, Parser.eval_orElse, hmany]
        rfl
      · simp [hr, hd] at h

theorem eval_digits_of_none {c : Cursor} (h : digitPrefix c.rest = none) :
    ∃ f, (digits : Parser N R Text).eval call source c = .fail f := by
  have hhead : ∀ ch ∈ c.rest.head?, isDigit ch = false := by
    intro ch hch
    obtain ⟨r, hr⟩ := List.head?_eq_some_iff.mp hch
    by_cases hd : isDigit ch = true
    · simp [digitPrefix, hr, hd] at h
    · simpa using hd
  obtain ⟨f, hf⟩ := readChar_of_head (.ofDescription "digit") hhead
  refine ⟨f.furthest ⟨c.pos, .ofDescription "natural number literal"⟩, ?_⟩
  have hmany : (Parser.satisfy "digit" isDigit : Parser N R Char).many1.eval call source c =
      .fail f := by
    show (c.readChar isDigit (.ofDescription "digit")).andThen _ = _
    rw [hf, Outcome.andThen_fail]
  unfold digits Parser.describe
  rw [Parser.eval, Parser.eval_orElse, hmany]
  rfl

end PieSyntax
