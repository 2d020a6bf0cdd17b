import PieSyntax.Proofs.Trivia

/-!
# Skipping trivia

Trivia that stand before a solid text are skipped, under every ceiling that leaves room for them and
whatever tail follows.  The induction is along `Dropped`: one case for each kind of trivia and of
data.

## Main results

* `returns_trivia`, `returns_skip` — the trivia parser gets from one end of a gap to the other.
-/

namespace PieSyntax

/-- A tail may come after `s'`: none but the empty one after nothing, and none that goes on with
trivia. -/
structure Clear (V : Tails) (s' : Text) : Prop where
  nil : s' = [] → ∀ v, V v → v = []
  solid : ∀ v, V v → Solid (s' ++ v)

variable {V : Tails}

theorem Clear.of_solid {s' : Text} (h : Solid s') (hne : s' ≠ []) : Clear V s' := by
  obtain ⟨ch, t, rfl⟩ := List.exists_cons_of_ne_nil hne
  exact ⟨fun hnil => absurd hnil hne, fun v _ => solid_cons (h ch rfl) _⟩

theorem solid_of_nil {t : Text} (ht : t = []) : Solid t := by
  rw [ht]
  exact fun ch hch => by cases hch

/-- At the end of a text every solid text is clear. -/
theorem clear_of_solid {cut : Prop} {t : Text} (ht : Solid t) : Clear (.empty cut) t := by
  refine ⟨fun _ v hv => hv, fun v hv => ?_⟩
  rw [show v = [] from hv, List.append_nil]
  exact ht

theorem wordPrefix_append {name r v : Text} (h : wordPrefix (name ++ r) = some name)
    (hv : r = [] → Boundary v) : wordPrefix (name ++ r ++ v) = some name := by
  obtain ⟨r', hr, hword, hboundary⟩ := wordPrefix_eq_some_iff.mp h
  obtain rfl : r = r' := List.append_cancel_left hr
  refine wordPrefix_eq_some_iff.mpr ⟨r ++ v, List.append_assoc _ _ _, hword, ?_⟩
  cases r with
  | nil => exact hv rfl
  | cons ch t => exact hboundary

theorem digitPrefix_append {run r v : Text} (h : digitPrefix (run ++ r) = some run)
    (hv : r = [] → ∀ ch ∈ v.head?, isDigit ch = false) :
    digitPrefix (run ++ r ++ v) = some run := by
  obtain ⟨r', hr, hne, hall, hend⟩ := digitPrefix_eq_some_iff.mp h
  obtain rfl : r = r' := List.append_cancel_left hr
  refine digitPrefix_eq_some_iff.mpr ⟨r ++ v, List.append_assoc _ _ _, hne, hall, ?_⟩
  cases r with
  | nil => exact hv rfl
  | cons ch t => exact hend

theorem IsWord.of_wordPrefix {s name : Text} (h : wordPrefix s = some name) : IsWord name := by
  obtain ⟨r, -, hword, -⟩ := wordPrefix_eq_some_iff.mp h
  exact hword

/-- An identifier starts with a character that may start one. -/
theorem IsWord.head {name : Text} (h : IsWord name) :
    ∃ ch t, name = ch :: t ∧ isWordStart ch = true := by
  obtain ⟨ch, t, rfl⟩ := List.exists_cons_of_ne_nil h.ne_nil
  rw [IsWord, wordPrefix_eq] at h
  by_cases hs : startsWord (ch :: t) = true
  · exact ⟨ch, t, rfl, isWordStart_of_startsWord hs⟩
  · rw [if_neg hs] at h
    cases h

/-- No identifier starts with a digit. -/
theorem isWordStart_of_isDigit {ch : Char} (h : isDigit ch = true) : isWordStart ch = false := by
  have hrange : 48 ≤ ch.toNat ∧ ch.toNat ≤ 57 := by
    simpa [isDigit, Char.isDigit, UInt32.le_iff_toNat_le] using h
  have hmem : ch.toNat ∈ [48, 49, 50, 51, 52, 53, 54, 55, 56, 57] := by
    simp only [List.mem_cons, List.not_mem_nil, or_false]
    omega
  have hall : ∀ n ∈ [48, 49, 50, 51, 52, 53, 54, 55, 56, 57],
      isWordStart (Char.ofNat n) = false := by decide
  have hch := hall ch.toNat hmem
  rwa [Char.ofNat_toNat] at hch

theorem Dropped.length_lt {s s' : Text} (h : Dropped .datum s s') : s'.length < s.length := by
  cases h with
  | @word name r h =>
      have hne := List.length_pos_iff.mpr (IsWord.of_wordPrefix h).ne_nil
      rw [List.length_append]
      omega
  | @digits run r h =>
      obtain ⟨-, -, hne, -⟩ := digitPrefix_eq_some_iff.mp h
      have hlen := List.length_pos_iff.mpr hne
      rw [List.length_append]
      omega
  | @group s s₁ s' h₁ h₂ =>
      obtain ⟨u, hu⟩ := h₁.suffix
      obtain ⟨v, hv⟩ := h₂.suffix
      rw [hu, hv]
      simp only [List.length_cons, List.length_append]
      omega

namespace Grammar

open PieSyntax.Parser

variable {source : String} {k : Nat} {c d m : Cursor}

/-! ## Single pieces -/

theorem returns_white {ch : Char} {r : Text} (hch : ch ∈ whitespace) (hr : c.rest = ch :: r) :
    Returns (rules.call source k) source V triviaItem c () (c.skip [ch]) := by
  obtain ⟨before, after, hsplit, hnot⟩ := List.eq_append_cons_of_mem hch
  unfold triviaItem
  rw [hsplit, List.map_append, List.map_cons, List.append_assoc, List.cons_append]
  refine Reads.choice (fun q hq => ?_) (Reads.map (fun _ => ()) (Returns.char hr))
  obtain ⟨ch', hch', rfl⟩ := List.mem_map.mp hq
  refine Declines.map _ (Declines.char fun v _ hhead => hnot ?_)
  rw [hr] at hhead
  cases hhead
  exact hch'

/-- Whitespace fails where none comes next. -/
theorem declines_white (h : ∀ v, V v → ∀ ch ∈ (c.rest ++ v).head?, ch ∉ whitespace) :
    ∀ q ∈ whitespace.map (fun ch => (ignored (.char ch) : PieParser Unit)),
      Declines (rules.call source k) source V q c := by
  intro q hq
  obtain ⟨ch, hch, rfl⟩ := List.mem_map.mp hq
  exact Declines.map _ (Declines.char fun v hv hhead => h v hv ch hhead hch)

theorem takeWhile_before_newline {body r : Text} (h : '\n' ∉ body) :
    (body ++ '\n' :: r).takeWhile (· ≠ '\n') = body := by
  have hall : ∀ ch ∈ body, decide (ch ≠ '\n') = true := by
    intro ch hch
    exact decide_eq_true fun he => h (he ▸ hch)
  rw [List.takeWhile_append_of_pos hall]
  simp

theorem takeWhile_no_newline {body : Text} (h : '\n' ∉ body) :
    body.takeWhile (· ≠ '\n') = body := by
  rw [List.takeWhile_eq_self_iff]
  intro ch hch
  exact decide_eq_true fun he => h (he ▸ hch)

/-- A line comment is read up to where its line ends. -/
theorem returns_lineComment {body r : Text} {e : Cursor} (hr : c.rest = ';' :: r)
    (hspan : Returns (rules.call source k) source V (.spanning (· ≠ '\n')) (c.skip [';']) body e)
    (hend : Returns (rules.call source k) source V ((ignored (.char '\n')).orElse .eof) e () d) :
    Returns (rules.call source k) source V triviaItem c () d := by
  refine Reads.choice (declines_white fun v _ ch hch hmem => ?_) (Reads.describe _
    (Reads.andThen (Reads.andThen (Returns.char hr) hspan) hend))
  rw [hr] at hch
  cases hch
  revert hmem
  decide

theorem returns_line {body r : Text} (hbody : '\n' ∉ body)
    (hr : c.rest = ';' :: (body ++ '\n' :: r)) :
    Returns (rules.call source k) source V triviaItem c () (c.skip (';' :: (body ++ ['\n']))) := by
  have hc₁ : (c.skip [';']).rest = body ++ '\n' :: r := Cursor.rest_skip (u := [';']) hr
  have hc₂ := Cursor.rest_skip hc₁
  have hspan : Returns (rules.call source k) source V (.spanning (· ≠ '\n')) (c.skip [';']) body
      ((c.skip [';']).skip body) := by
    refine Returns.of_eval fun v _ => ?_
    rw [Cursor.before_skip hc₁, Parser.eval, Cursor.before_rest, hc₁, List.append_assoc,
      List.cons_append, takeWhile_before_newline hbody]
  have hend : Returns (rules.call source k) source V ((ignored (.char '\n')).orElse .eof)
      ((c.skip [';']).skip body) () (((c.skip [';']).skip body).skip ['\n']) :=
    Reads.orElse_left (Reads.map _ (Returns.char hc₂))
  have hskip : ((c.skip [';']).skip body).skip ['\n'] = c.skip (';' :: (body ++ ['\n'])) := by
    simp
  rw [hskip] at hend
  exact returns_lineComment hr hspan hend

theorem returns_lastLine {body : Text} (hbody : '\n' ∉ body) (hr : c.rest = ';' :: body)
    (hV : ∀ v, V v → v = []) :
    Returns (rules.call source k) source V triviaItem c () (c.skip (';' :: body)) := by
  have hc₁ := Cursor.rest_skip (u := [';']) hr
  have hc₂ := Cursor.rest_skip (hc₁.trans (List.append_nil body).symm)
  have hspan : Returns (rules.call source k) source V (.spanning (· ≠ '\n')) (c.skip [';']) body
      ((c.skip [';']).skip body) := by
    refine Returns.of_eval fun v hv => ?_
    rw [Cursor.before_skip (hc₁.trans (List.append_nil body).symm), Parser.eval,
      Cursor.before_rest, hc₁, hV v hv, List.append_nil, takeWhile_no_newline hbody]
  have hend : Returns (rules.call source k) source V ((ignored (.char '\n')).orElse .eof)
      ((c.skip [';']).skip body) () ((c.skip [';']).skip body) := by
    refine Reads.orElse_right (Declines.map _ (Declines.char fun v hv hhead => ?_))
      (Returns.of_eval fun v hv => ?_)
    · rw [hc₂, hV v hv] at hhead
      cases hhead
    · have hempty : (((c.skip [';']).skip body).before v).atEnd = true := by
        rw [Cursor.atEnd, Cursor.before_rest, hc₂, hV v hv]
        rfl
      rw [Parser.eval, if_pos hempty]
  have hskip : (c.skip [';']).skip body = c.skip (';' :: body) := by
    simp
  rw [hskip] at hend hspan
  exact returns_lineComment hr hspan hend

/-- What is tried before a datum comment fails where one starts. -/
theorem declines_before_comment (h : ∀ v, V v → ∀ ch ∈ (c.rest ++ v).head?, ch = '#') :
    ∀ q ∈ whitespace.map (fun ch => (ignored (.char ch) : PieParser Unit)) ++ [lineComment],
      Declines (rules.call source k) source V q c := by
  intro q hq
  rcases List.mem_append.mp hq with hq | hq
  · refine declines_white (fun v hv ch hch hmem => ?_) q hq
    rw [h v hv ch hch] at hmem
    revert hmem
    decide
  · rw [List.mem_singleton.mp hq]
    refine Declines.describe _ (Declines.andThen (Declines.andThen (Declines.char ?_)))
    intro v hv hhead
    have hsemi := h v hv _ hhead
    revert hsemi
    decide

theorem reads_comment {r : Text} {c₁ : Cursor} {t : PieParser Unit}
    (hr : c.rest = '#' :: ';' :: r)
    (hbefore : Returns (rules.call source k) source V skip (c.skip "#;".toList) () c₁)
    (hdatum : Reads (rules.call source k) source V t anyDatum c₁ () d) :
    Reads (rules.call source k) source V t triviaItem c () d := by
  have hmark : Returns (rules.call source k) source V (.text "#;".toList) c "#;".toList
      (c.skip "#;".toList) := Returns.text hr
  have hcomment : Reads (rules.call source k) source V t (datumComment skip innerDatum) c () d :=
    Reads.map _ (Reads.andThen (Reads.close (Reads.lexeme hmark) hbefore) hdatum)
  have hnot : ∀ v, V v → ∀ ch ∈ (c.rest ++ v).head?, ch = '#' := by
    intro v _ ch hch
    rw [hr] at hch
    cases hch
    rfl
  unfold triviaItem
  rw [List.append_cons]
  exact Reads.choice (declines_before_comment hnot) hcomment

/-- Nothing is dropped where a solid text comes next. -/
theorem declines_triviaItem (h : ∀ v, V v → Solid (c.rest ++ v)) :
    Declines (rules.call source k) source V triviaItem c := by
  have hnot : ∀ v, V v → ∀ ch ∈ (c.rest ++ v).head?, ch ∉ whitespace ++ [';', '#'] := by
    intro v hv ch hch hmem
    have hfalse := h v hv ch hch
    rw [startsTrivia, List.contains_iff_mem.mpr hmem] at hfalse
    cases hfalse
  refine Declines.choice fun q hq => ?_
  rcases List.mem_append.mp hq with hq | hq
  · exact declines_white (fun v hv ch hch hmem => hnot v hv ch hch
      (List.mem_append_left _ hmem)) q hq
  · simp only [List.mem_cons, List.not_mem_nil, or_false] at hq
    rcases hq with rfl | rfl
    · refine Declines.describe _ (Declines.andThen (Declines.andThen (Declines.char ?_)))
      intro v hv hhead
      exact hnot v hv ';' hhead (by decide)
    · refine Declines.map _ (Declines.andThen (Declines.lexeme (Declines.text ?_)))
      intro v hv hpre
      obtain ⟨r, hr⟩ := hpre
      exact hnot v hv '#' (by rw [← hr]; rfl) (by decide)

/-! ## Data -/

/-- No datum starts where the text starts otherwise. -/
theorem declines_anyDatum (h : ∀ v, V v → ∀ ch ∈ (c.rest ++ v).head?,
      ch ≠ '(' ∧ isWordStart ch = false ∧ isDigit ch = false) :
    Declines (rules.call source k) source V anyDatum c := by
  refine Declines.map _ (Declines.lexeme (Declines.orElse (Declines.orElse ?_ ?_) ?_))
  · exact Declines.map _ (Declines.parens fun v hv hhead => (h v hv '(' hhead).1 rfl)
  · exact Declines.map _ (Declines.identifier fun v hv =>
      wordPrefix_eq_none_of_head fun ch hch => (h v hv ch hch).2.1)
  · exact Declines.map _ (Declines.digits fun v hv =>
      digitPrefix_eq_none_of_head fun ch hch => (h v hv ch hch).2.2)

theorem reads_word {name r : Text} (hr : c.rest = name ++ r)
    (h : ∀ v, V v → wordPrefix (c.rest ++ v) = some name) :
    Reads (rules.call source k) source V skip anyDatum c () (c.skip name) := by
  have hgroup : Declines (rules.call source k) source V
      (ignored (parens skip innerDatum.many)) c := by
    refine Declines.map _ (Declines.parens fun v hv hhead => ?_)
    obtain ⟨ch, t, rfl, hstart⟩ := (IsWord.of_wordPrefix (h v hv)).head
    rw [hr] at hhead
    cases hhead
    revert hstart
    decide
  have hword : Returns (rules.call source k) source V (ignored identifier) c () (c.skip name) :=
    Reads.map _ (Returns.identifier hr h)
  exact Reads.map _ (Reads.lexeme (Reads.orElse_left (Reads.orElse_right hgroup hword)))

theorem reads_digits {run r : Text} (hr : c.rest = run ++ r)
    (h : ∀ v, V v → digitPrefix (c.rest ++ v) = some run) :
    Reads (rules.call source k) source V skip anyDatum c () (c.skip run) := by
  -- A digit is neither a parenthesis nor the start of a word.
  have hfirst : ∀ v, V v → ∀ ch ∈ (c.rest ++ v).head?, isDigit ch = true := by
    intro v hv ch hch
    obtain ⟨r', hr', hne, hall, -⟩ := digitPrefix_eq_some_iff.mp (h v hv)
    obtain ⟨x, t, rfl⟩ := List.exists_cons_of_ne_nil hne
    rw [hr'] at hch
    cases hch
    exact hall ch (by simp)
  have hgroup : Declines (rules.call source k) source V
      (ignored (parens skip innerDatum.many)) c := by
    refine Declines.map _ (Declines.parens fun v hv hhead => ?_)
    have hdigit := hfirst v hv '(' hhead
    revert hdigit
    decide
  have hword : Declines (rules.call source k) source V (ignored identifier) c :=
    Declines.map _ (Declines.identifier fun v hv => wordPrefix_eq_none_of_head
      fun ch hch => isWordStart_of_isDigit (hfirst v hv ch hch))
  have hrun : Returns (rules.call source k) source V (ignored PieSyntax.digits) c () (c.skip run) :=
    Reads.map _ (Returns.digits hr h)
  exact Reads.map _ (Reads.lexeme (Reads.orElse_right (Declines.orElse hgroup hword) hrun))

/-- A token around a parser that has swallowed the trivia after it swallows none itself. -/
theorem reads_ignored_lexeme {α : Type} {p : PieParser α} {a : α}
    (h : Reads (rules.call source k) source V skip p c a m) :
    Reads (rules.call source k) source V skip (ignored (lexeme skip p)) c () m := by
  have heq : ∀ c, (ignored (lexeme skip p)).eval (rules.call source k) source c =
      (p.eval (rules.call source k) source c).andThen fun _ n =>
        (skip.eval (rules.call source k) source n).andThen fun _ n => .ok () n := by
    intro c
    unfold ignored lexeme Parser.followedBy Parser.map
    simp only [Parser.eval]
    cases p.eval (rules.call source k) source c with
    | ok a n =>
        simp only [Outcome.andThen_ok]
        cases skip.eval (rules.call source k) source n with
        | ok u e => rfl
        | fail f => rfl
        | interrupted why => rfl
    | fail f => rfl
    | interrupted why => rfl
  refine Settles.through h (fun c hdeep => ?_) fun v hfollows => ⟨fun n hn => ?_, fun ht => ?_⟩
  · rw [heq, hdeep, Outcome.andThen_interrupted]
  · rw [heq, hfollows.ok n hn, Outcome.andThen_ok, eval_skip_again hn, Outcome.andThen_ok]
  · rw [heq, hfollows.tooDeep ht, Outcome.andThen_interrupted]

theorem reads_group {c₁ : Cursor} {us : List Unit} {r r' : Text} (hr : c.rest = '(' :: r)
    (hbefore : Returns (rules.call source k) source V skip (c.skip ['(']) () c₁)
    (hdata : Returns (rules.call source k) source V innerDatum.many c₁ us d)
    (hr' : d.rest = ')' :: r') :
    Reads (rules.call source k) source V skip anyDatum c () (d.skip [')']) :=
  reads_ignored_lexeme (Reads.orElse_left (Reads.orElse_left
    (Reads.map _ (Reads.parens hr hbefore hdata hr'))))

/-! ## Gaps -/

/-- The marks of datum comments and the parentheses in a text, none of which trivia can go down a
level without. -/
def weight (s : Text) : Nat := s.countP fun ch => ch = '#' || ch = '('

@[simp] theorem weight_append (s s' : Text) : weight (s ++ s') = weight s + weight s' :=
  List.countP_append

theorem weight_suffix {u s s' : Text} (h : s = u ++ s') : weight s = weight u + weight s' := by
  rw [h, weight_append]

/-- What it means, for each extent, that what stands between two cursors is read: there is room for
it when the ceiling is not below its weight. -/
def ReadsExtent (V : Tails) (source : String) (k : Nat) : Extent → Cursor → Cursor → Prop
  | .trivia, c, d =>
      Clear V d.rest → V.Room (weight c.rest) (k + weight d.rest) →
        ∃ us, Returns (rules.call source k) source V triviaItem.many c us d
  | .datum, c, d =>
      (d.rest = [] → ∀ v, V v → v = []) → V.Room (weight c.rest + 1) (k + weight d.rest) →
        Reads (rules.call source k) source V skip anyDatum c () d
  | .data, c, d =>
      (∃ r, d.rest = ')' :: r) → V.Room (weight c.rest + 2) (k + weight d.rest) →
        ∃ us, Returns (rules.call source k) source V innerDatum.many c us d

/-- What stands before the second text in the first one is read wherever it stands. -/
def Readable (V : Tails) (source : String) (x : Extent) (s s' : Text) : Prop :=
  ∀ (k : Nat) (c d : Cursor), c.rest = s → d.rest = s' → c.Reaches d → ReadsExtent V source k x c d

theorem Readable.returns {s s' : Text} (h : Readable V source .trivia s s') (hc : c.rest = s)
    (hd : d.rest = s') (hcd : c.Reaches d) (hclear : Clear V s')
    (hroom : V.Room (weight s + 1) (k + weight s')) :
    Returns (rules.call source k) source V skip c () d := by
  subst hc hd
  obtain ⟨u, hu⟩ := hcd
  have hweight := weight_suffix hu.rest
  refine Rules.returns_call (hroom.imp fun hk => by omega) fun j hj => ?_
  obtain ⟨us, hus⟩ := h j c d rfl rfl ⟨u, hu⟩ hclear (hroom.imp fun hk => by omega)
  exact Reads.map _ hus

theorem Readable.none (s : Text) : Readable V source .trivia s s := by
  intro k c d hc hd hcd hclear _
  obtain rfl := hcd.eq_of_rest (hd.trans hc.symm)
  exact ⟨[], Returns.many_nil (rules.call_reaches source k) (declines_triviaItem hclear.solid)⟩

/-- A piece of trivia that goes down no level, and what is read after it. -/
theorem Readable.piece {u s s' : Text} (hne : u ≠ []) (hsuffix : ∃ w, s = w ++ s')
    (hitem : ∀ (k : Nat) (c : Cursor), c.rest = u ++ s →
      Returns (rules.call source k) source V triviaItem c () (c.skip u))
    (h : Readable V source .trivia s s') : Readable V source .trivia (u ++ s) s' := by
  intro k c d hc hd hcd hclear hroom
  obtain ⟨w, hw⟩ := hsuffix
  have hrest := Cursor.rest_skip hc
  obtain ⟨us, hus⟩ := h k _ d hrest hd (hcd.of_skip hc (hd ▸ hw)) hclear (hroom.imp fun hk => by
    rw [hrest]
    rw [hc, weight_append] at hk
    omega)
  refine ⟨() :: us, Returns.many_cons (rules.call_reaches source k) (hitem k c hc) ?_ hus⟩
  have hlen := List.length_pos_iff.mpr hne
  simp only [Cursor.skip]
  omega

theorem Readable.lastLine {body : Text} (hbody : '\n' ∉ body) :
    Readable V source .trivia (';' :: body) [] := by
  intro k c d hc hd hcd hclear _
  have hcall := rules.call_reaches source k
  have hu : c.rest = (';' :: body) ++ [] := by rw [hc, List.append_nil]
  have hreach := hcd.of_skip hu (w := []) (by rw [hd]; rfl)
  have hitem : Returns (rules.call source k) source V triviaItem c () d := by
    rw [hreach.eq_of_rest (by rw [hd, Cursor.rest_skip hu])]
    exact returns_lastLine hbody hc (hclear.nil hd)
  exact ⟨[()], Returns.many_cons hcall hitem (hcd.offset_ne (by rw [hd, hc]; simp))
    (Returns.many_nil hcall (declines_triviaItem hclear.solid))⟩

theorem Readable.comment {s s₁ s₂ s' : Text} (h₁ : Dropped .trivia s s₁)
    (h₂ : Dropped .datum s₁ s₂) (h₃ : Dropped .trivia s₂ s') (ih₁ : Readable V source .trivia s s₁)
    (ih₂ : Readable V source .datum s₁ s₂) (ih₃ : Readable V source .trivia s₂ s') :
    Readable V source .trivia ('#' :: ';' :: s) s' := by
  intro k c d hc hd hcd hclear hroom
  have hcall := rules.call_reaches source k
  obtain ⟨u₁, hu₁⟩ := h₁.suffix
  obtain ⟨u₂, hu₂⟩ := h₂.suffix
  obtain ⟨u₃, hu₃⟩ := h₃.suffix
  have hu : c.rest = "#;".toList ++ s := hc
  have hr₀ := Cursor.rest_skip hu
  have hcd₀ := hcd.of_skip hu (w := u₁ ++ (u₂ ++ u₃)) (by rw [hd, hu₁, hu₂, hu₃]; simp)
  have hr₁ := Cursor.rest_skip (hr₀.trans hu₁)
  have hcd₁ := hcd₀.of_skip (hr₀.trans hu₁) (w := u₂ ++ u₃) (by rw [hd, hu₂, hu₃]; simp)
  have hr₂ := Cursor.rest_skip (hr₁.trans hu₂)
  have hcd₂ := hcd₁.of_skip (hr₁.trans hu₂) (w := u₃) (by rw [hd, hu₃])
  -- The mark weighs one, which pays for the level that is gone down.
  have hmark : weight c.rest = 1 + weight s := by rw [hu, weight_append]; rfl
  have hw₁ := weight_suffix hu₁
  have hw₂ := weight_suffix hu₂
  have hw₃ := weight_suffix hu₃
  rw [hmark, hd] at hroom
  have hbefore : Returns (rules.call source k) source V skip (c.skip "#;".toList) ()
      ((c.skip "#;".toList).skip u₁) :=
    ih₁.returns hr₀ hr₁ (Cursor.reaches_skip (hr₀.trans hu₁))
      (Clear.of_solid h₂.solid.1 h₂.solid.2) (hroom.imp fun hk => by omega)
  have hdatum := ih₂ k _ _ hr₁ hr₂ (Cursor.reaches_skip (hr₁.trans hu₂))
    (fun hnil => by
      rw [hr₂] at hnil
      subst hnil
      exact hclear.nil (hd.trans h₃.nil_left))
    (hroom.imp fun hk => by rw [hr₁, hr₂]; omega)
  have hafter : Returns (rules.call source k) source V skip _ () d :=
    ih₃.returns hr₂ hd hcd₂ (hd ▸ hclear) (hroom.imp fun hk => by omega)
  have hne : d.offset ≠ c.offset := hcd.offset_ne (by
    rw [hd, hc, hu₁, hu₂, hu₃]
    simp only [List.length_cons, List.length_append]
    omega)
  exact ⟨[()], Returns.many_cons hcall
    (reads_comment hc hbefore (Reads.close hdatum hafter)) hne
    (Returns.many_nil hcall (declines_triviaItem hclear.solid))⟩

theorem Readable.word {name r : Text} (h : wordPrefix (name ++ r) = some name) :
    Readable V source .datum (name ++ r) r := by
  intro k c d hc hd hcd hend _
  have hreach := hcd.of_skip hc (w := []) (by rw [hd]; rfl)
  rw [hreach.eq_of_rest (by rw [hd, Cursor.rest_skip hc])]
  refine reads_word hc fun v hv => hc ▸ wordPrefix_append h fun hnil => ?_
  rw [hend (hd.trans hnil) v hv]
  exact fun ch hch => by cases hch

theorem Readable.digits {run r : Text} (h : digitPrefix (run ++ r) = some run) :
    Readable V source .datum (run ++ r) r := by
  intro k c d hc hd hcd hend _
  have hreach := hcd.of_skip hc (w := []) (by rw [hd]; rfl)
  rw [hreach.eq_of_rest (by rw [hd, Cursor.rest_skip hc])]
  refine reads_digits hc fun v hv => hc ▸ digitPrefix_append h fun hnil => ?_
  rw [hend (hd.trans hnil) v hv]
  exact fun ch hch => by cases hch

theorem solid_of_dropped_data {s r : Text} (h : Dropped .data s (')' :: r)) :
    Solid s ∧ s ≠ [] := by
  cases h with
  | nil => exact ⟨solid_cons (by decide) r, List.cons_ne_nil _ _⟩
  | cons hdatum hafter hdata => exact hdatum.solid

theorem Readable.group {s s₁ s' : Text} (h₁ : Dropped .trivia s s₁)
    (h₂ : Dropped .data s₁ (')' :: s')) (ih₁ : Readable V source .trivia s s₁)
    (ih₂ : Readable V source .data s₁ (')' :: s')) : Readable V source .datum ('(' :: s) s' := by
  intro k c d hc hd hcd hend hroom
  obtain ⟨u₁, hu₁⟩ := h₁.suffix
  obtain ⟨u₂, hu₂⟩ := h₂.suffix
  have hr₀ := Cursor.rest_skip (u := ['(']) (r := s) hc
  have hcd₀ := hcd.of_skip (u := ['(']) (r := s) hc (w := u₁ ++ (u₂ ++ [')']))
    (by rw [hd, hu₁, hu₂]; simp)
  have hr₁ := Cursor.rest_skip (hr₀.trans hu₁)
  have hcd₁ := hcd₀.of_skip (hr₀.trans hu₁) (w := u₂ ++ [')']) (by rw [hd, hu₂]; simp)
  have hr₂ := Cursor.rest_skip (hr₁.trans hu₂)
  have hcd₂ := hcd₁.of_skip (hr₁.trans hu₂) (w := [')']) (by rw [hd]; rfl)
  have hr₃ := Cursor.rest_skip (u := [')']) hr₂
  have hsolid := solid_of_dropped_data h₂
  -- The parenthesis weighs one, which pays for the level that the data are on.
  have hopen : weight c.rest = 1 + weight s := by
    rw [hc]
    exact weight_append ['('] s
  have hclose : weight (')' :: s') = weight s' :=
    (weight_append [')'] s').trans (Nat.zero_add _)
  have hw₁ := weight_suffix hu₁
  have hw₂ := weight_suffix hu₂
  rw [hopen, hd] at hroom
  have hbefore : Returns (rules.call source k) source V skip (c.skip ['(']) ()
      ((c.skip ['(']).skip u₁) :=
    ih₁.returns hr₀ hr₁ (Cursor.reaches_skip (hr₀.trans hu₁)) (Clear.of_solid hsolid.1 hsolid.2)
      (hroom.imp fun hk => by omega)
  obtain ⟨us, hdata⟩ := ih₂ k _ _ hr₁ hr₂ (Cursor.reaches_skip (hr₁.trans hu₂)) ⟨s', hr₂⟩
    (hroom.imp fun hk => by rw [hr₁, hr₂]; omega)
  have hcd₃ := hcd₂.of_skip (u := [')']) hr₂ (w := []) (by rw [hd]; rfl)
  rw [hcd₃.eq_of_rest (by rw [hd, hr₃])]
  exact reads_group hc hbefore hdata hr₂

theorem Readable.nil (s : Text) : Readable V source .data s s := by
  intro k c d hc hd hcd hclose hroom
  obtain ⟨r, hr⟩ := hclose
  obtain rfl := hcd.eq_of_rest (hd.trans hc.symm)
  refine ⟨[], Returns.many_nil (rules.call_reaches source k)
    (Rules.declines_call (hroom.imp fun hk => by omega) fun j _ =>
      declines_anyDatum fun v _ ch hch => ?_)⟩
  rw [hr] at hch
  cases hch
  decide

theorem Readable.cons {s s₁ s₂ s' : Text} (h₁ : Dropped .datum s s₁) (h₂ : Dropped .trivia s₁ s₂)
    (h₃ : Dropped .data s₂ s') (ih₁ : Readable V source .datum s s₁)
    (ih₂ : Readable V source .trivia s₁ s₂) (ih₃ : Readable V source .data s₂ s') :
    Readable V source .data s s' := by
  intro k c d hc hd hcd hclose hroom
  obtain ⟨u₁, hu₁⟩ := h₁.suffix
  obtain ⟨u₂, hu₂⟩ := h₂.suffix
  obtain ⟨u₃, hu₃⟩ := h₃.suffix
  have hr₁ := Cursor.rest_skip (hc.trans hu₁)
  have hcd₁ := hcd.of_skip (hc.trans hu₁) (w := u₂ ++ u₃) (by rw [hd, hu₂, hu₃]; simp)
  have hr₂ := Cursor.rest_skip (hr₁.trans hu₂)
  have hcd₂ := hcd₁.of_skip (hr₁.trans hu₂) (w := u₃) (by rw [hd, hu₃])
  have hw₁ := weight_suffix hu₁
  have hw₂ := weight_suffix hu₂
  have hw₃ := weight_suffix hu₃
  have hsolid : Solid s₂ ∧ s₂ ≠ [] := by
    obtain ⟨r, hr⟩ := hclose
    rw [hd] at hr
    exact solid_of_dropped_data (hr ▸ h₃)
  rw [hc, hd] at hroom
  obtain ⟨us, hdata⟩ := ih₃ k _ d hr₂ hd hcd₂ hclose
    (hroom.imp fun hk => by rw [hr₂, hd]; omega)
  have hdatum : Returns (rules.call source k) source V innerDatum c ()
      ((c.skip u₁).skip u₂) := by
    refine Rules.returns_call (hroom.imp fun hk => by omega) fun j hj => ?_
    refine Reads.close (ih₁ j c _ hc hr₁ (Cursor.reaches_skip (hc.trans hu₁)) (fun hnil => ?_)
      (hroom.imp fun hk => by rw [hc, hr₁]; omega))
      (ih₂.returns hr₁ hr₂ (Cursor.reaches_skip (hr₁.trans hu₂)) (Clear.of_solid hsolid.1 hsolid.2)
        (hroom.imp fun hk => by omega))
    rw [hr₁] at hnil
    subst hnil
    exact absurd h₂.nil_left hsolid.2
  refine ⟨() :: us, Returns.many_cons (rules.call_reaches source k) hdatum ?_ hdata⟩
  refine Cursor.Reaches.offset_ne (c := c) ?_ ?_
  · rw [Cursor.skip_skip]
    exact Cursor.reaches_skip (r := s₂) (by rw [hc, hu₁, hu₂, List.append_assoc])
  · have hlt := h₁.length_lt
    rw [hr₂, hc, hu₁, hu₂]
    rw [hu₁, hu₂] at hlt
    simp only [List.length_append] at hlt ⊢
    omega

/-- What was dropped is read. -/
theorem readable_of_dropped {x : Extent} {s s' : Text} (h : Dropped x s s') :
    Readable V source x s s' := by
  induction h with
  | none s => exact .none s
  | @white ch s s' hch h ih =>
      exact Readable.piece (u := [ch]) (List.cons_ne_nil _ _) h.suffix
        (fun k c hc => returns_white hch hc) ih
  | @line body s s' hbody h ih =>
      have hsplit : ';' :: (body ++ '\n' :: s) = (';' :: (body ++ ['\n'])) ++ s := by simp
      rw [hsplit]
      exact Readable.piece (List.cons_ne_nil _ _) h.suffix
        (fun k c hc => returns_line hbody (hc.trans hsplit.symm)) ih
  | lastLine hbody => exact .lastLine hbody
  | comment h₁ h₂ h₃ ih₁ ih₂ ih₃ => exact .comment h₁ h₂ h₃ ih₁ ih₂ ih₃
  | word h => exact .word h
  | digits h => exact .digits h
  | group h₁ h₂ ih₁ ih₂ => exact .group h₁ h₂ ih₁ ih₂
  | nil s => exact .nil s
  | cons h₁ h₂ h₃ ih₁ ih₂ ih₃ => exact .cons h₁ h₂ h₃ ih₁ ih₂ ih₃

/-- The trivia parser gets from one end of a gap to the other. -/
theorem returns_trivia (h : c.Gap d) (hclear : Clear V d.rest)
    (hroom : V.Room (weight c.rest) (k + weight d.rest)) :
    Returns (rules.call source k) source V trivia c () d := by
  obtain ⟨us, hus⟩ := readable_of_dropped h.dropped k c d rfl rfl h.reaches hclear hroom
  exact Reads.map _ hus

theorem returns_skip (h : c.Gap d) (hclear : Clear V d.rest)
    (hroom : V.Room (weight c.rest + 1) (k + weight d.rest)) :
    Returns (rules.call source k) source V skip c () d :=
  (readable_of_dropped h.dropped).returns rfl rfl h.reaches hclear hroom

end Grammar

end PieSyntax
