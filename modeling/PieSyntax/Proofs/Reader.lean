import PieSyntax.Proofs.Entry

/-!
# A reader of S-expressions

`readText` is the first of two stages in which the language can be read.  It goes through the text
once, from left to right, and needs to know nothing of the grammar: between tokens it drops
whitespace, line comments and datum comments, and a parenthesis opens a list.  A datum comment takes
the S-expression after it away again, which may hold no quoted word.

The second stage is the elaborator, which looks at no characters.  The grammar reads characters,
keywords and forms all at once, with ordered choices, greedy repetitions and trivia swallowed by every
token, and accepts what the two stages accept.

## Main results

* `readItems_sound`, `readItems_complete` — what is read is what stands in the text.
* `exists_parseSource_eq_ok_iff` — a program is returned, up to locations, just when the reader and
  the elaborator return it.
-/

namespace PieSyntax

variable {ceiling : Nat}

/-- Takes the first of several S-expressions away; it must be a datum. -/
def dropDatum : List (SExpr Unit) → Option (List (SExpr Unit))
  | x :: xs => if x.isDatum then some xs else none
  | [] => none

/-- Reads S-expressions up to a closing parenthesis or the end of the text, and returns what is
left.  Each step goes on with a shorter text, so `fuel` need only be more than its length. -/
def readItems : (fuel : Nat) → Text → Option (List (SExpr Unit) × Text)
  | 0, _ => none
  | _ + 1, [] => some ([], [])
  | fuel + 1, ch :: s =>
    if ch ∈ whitespace then readItems fuel s
    else if ch = ';' then readItems fuel (s.dropWhile (· ≠ '\n'))
    else if ch = ')' then some ([], ch :: s)
    else if ch = '(' then
      (readItems fuel s).bind fun (items, r) =>
        match r with
        | ')' :: r => (readItems fuel r).map fun (xs, r) => (.list () items :: xs, r)
        | _ => none
    else if ch = '#' then
      match s with
      | ';' :: r => (readItems fuel r).bind fun (xs, r) => (dropDatum xs).map fun xs => (xs, r)
      | _ => none
    else if ch = '\'' then
      (wordPrefix s).bind fun name =>
        (readItems fuel (s.drop name.length)).map fun (xs, r) => (.quoted () name :: xs, r)
    else
      match wordPrefix (ch :: s), digitPrefix (ch :: s) with
      | some name, _ =>
        (readItems fuel ((ch :: s).drop name.length)).map fun (xs, r) => (.word () name :: xs, r)
      | none, some run =>
        (readItems fuel ((ch :: s).drop run.length)).map fun (xs, r) => (.numeral () run :: xs, r)
      | none, none => none

/-- Reads a whole text. -/
def readText (s : Text) : Option (List (SExpr Unit)) :=
  match readItems (s.length + 1) s with
  | some (xs, []) => some xs
  | _ => none

example : (readText "(a #;(b 1) 'c) ; d".toList).isSome = true := by decide +kernel

/-! ## Gaps -/

namespace Cursor

variable {c d c₁ : Cursor}

/-- A gap that starts after a piece of trivia. -/
theorem Gap.cons {u r : Text} (hr : c.rest = u ++ r)
    (hdropped : Dropped .trivia r d.rest → Dropped .trivia c.rest d.rest) (h : (c.skip u).Gap d) :
    c.Gap d := by
  refine ⟨(reaches_skip hr).trans h.reaches, hdropped ?_⟩
  have hrest := h.dropped
  rwa [rest_skip hr] at hrest

/-- What is left of a gap after a piece of trivia. -/
theorem Gap.tail {u r : Text} (h : c.Gap d) (hr : c.rest = u ++ r)
    (hdropped : Dropped .trivia r d.rest) : (c.skip u).Gap d := by
  obtain ⟨w, hw⟩ := hdropped.suffix
  refine ⟨h.reaches.of_skip hr hw, ?_⟩
  rw [rest_skip hr]
  exact hdropped

end Cursor

/-- Where a line ends, nothing but its newline is dropped first. -/
theorem Dropped.after_newline {s s' : Text} (h : Dropped .trivia ('\n' :: s) s') (hs' : Solid s') :
    Dropped .trivia s s' := by
  cases h with
  | none =>
      have hsolid : startsTrivia '\n' = false := hs' '\n' rfl
      exact absurd hsolid (by decide)
  | white hch h => exact h

/-! ## What is read stands in the text -/

/-- The items stand in the text from `c` on, after a gap, and `r` is left after them. -/
def Found (source : String) (c : Cursor) (items : List (SExpr Unit)) (r : Text) : Prop :=
  ∃ (c₀ : Cursor) (xs : List (SExpr Location)) (d : Cursor), c.Gap c₀ ∧
    SExpr.StandAll source xs c₀ d ∧ SExpr.plainAll xs = items ∧ d.rest = r ∧
      (r = [] ∨ ∃ t, r = ')' :: t)

variable {source : String} {c d m : Cursor}

theorem solid_of_end {r : Text} (h : r = [] ∨ ∃ t, r = ')' :: t) : Solid r := by
  rcases h with rfl | ⟨t, rfl⟩
  · intro ch hch
    cases hch
  · exact solid_cons (by decide) t

/-- One more item. -/
theorem Found.cons {x : SExpr Location} {items : List (SExpr Unit)} {r : Text}
    (hx : x.Stands source c m) (h : Found source m items r) :
    Found source c (x.plain :: items) r := by
  obtain ⟨c₁, xs, d, hgap, hxs, rfl, hd, hend⟩ := h
  exact ⟨c, x :: xs, d, Cursor.Gap.refl c, ⟨m, c₁, hx, hgap, hxs⟩, rfl, hd, hend⟩

theorem Found.of_gap {items : List (SExpr Unit)} {u s r : Text} (hr : c.rest = u ++ s)
    (h : Found source (c.skip u) items r)
    (hdropped : ∀ s', Solid s' → Dropped .trivia s s' → Dropped .trivia c.rest s') :
    Found source c items r := by
  obtain ⟨c₀, xs, d, hgap, hxs, hitems, hd, hend⟩ := h
  have hsolid : Solid c₀.rest := hxs.solid (hd ▸ solid_of_end hend)
  exact ⟨c₀, xs, d, hgap.cons hr (hdropped _ hsolid), hxs, hitems, hd, hend⟩

/-- A line comment before the items. -/
theorem Found.after_line {items : List (SExpr Unit)} {s r : Text} (hc : c.rest = ';' :: s)
    (h : ∀ {c' : Cursor}, c'.rest = s.dropWhile (· ≠ '\n') → Found source c' items r) :
    Found source c items r := by
  have hsplit : s = s.takeWhile (· ≠ '\n') ++ s.dropWhile (· ≠ '\n') :=
    (List.takeWhile_append_dropWhile).symm
  have hbody : '\n' ∉ s.takeWhile (· ≠ '\n') := fun hmem => by
    simpa using List.mem_takeWhile_imp hmem
  have hhead := List.head?_dropWhile_not (· ≠ '\n') s
  have hr : c.rest = (';' :: s.takeWhile (· ≠ '\n')) ++ s.dropWhile (· ≠ '\n') := by
    rw [hc, List.cons_append, ← hsplit]
  refine Found.of_gap hr (h (Cursor.rest_skip hr)) fun s' hs' hdropped => ?_
  rw [hr]
  cases htail : s.dropWhile (· ≠ '\n') with
  | nil =>
      rw [htail] at hdropped
      rw [hdropped.nil_left, List.append_nil]
      exact .lastLine hbody
  | cons x t =>
      rw [htail] at hdropped hhead
      have hx : x = '\n' := by simpa using hhead
      subst hx
      exact .line hbody (hdropped.after_newline hs')

/-- A list before the items. -/
theorem Found.after_list {inner items : List (SExpr Unit)} {s r r' : Text} (hc : c.rest = '(' :: s)
    (hinner : Found source (c.skip ['(']) inner (')' :: r'))
    (h : ∀ {c' : Cursor}, c'.rest = r' → Found source c' items r) :
    Found source c (.list () inner :: items) r := by
  obtain ⟨c₀, xs, d, hgap, hxs, rfl, hd, -⟩ := hinner
  have hstands : (SExpr.list ⟨source, c.pos, (d.skip [')']).pos⟩ xs).Stands source c
      (d.skip [')']) := ⟨c₀, d, ⟨s, hc⟩, hgap, hxs, ⟨r', hd⟩, rfl, rfl⟩
  exact Found.cons hstands (h (Cursor.rest_skip (u := [')']) hd))

/-- A datum comment before the items. -/
theorem Found.after_comment {items items' : List (SExpr Unit)} {s r : Text}
    (hc : c.rest = '#' :: ';' :: s) (h : Found source (c.skip "#;".toList) items r)
    (hdatum : dropDatum items = some items') : Found source c items' r := by
  obtain ⟨c₀, xs, d, hgap, hxs, rfl, hd, hend⟩ := h
  cases xs with
  | nil => cases hdatum
  | cons x xs =>
      rw [SExpr.plainAll, SExpr.mapAll, dropDatum] at hdatum
      by_cases hx : (x.map fun _ => ()).isDatum = true
      · rw [if_pos hx, Option.some.injEq] at hdatum
        obtain ⟨m, c₁, hstands, hgap', hall⟩ := hxs
        have hbefore := hgap.dropped
        have hr : c.rest = "#;".toList ++ s := hc
        rw [Cursor.rest_skip hr] at hbefore
        have hreach := (hgap.reaches.trans hstands.reaches.1).trans hgap'.reaches
        refine ⟨c₁, xs, d, ⟨(Cursor.reaches_skip hr).trans hreach, ?_⟩, hall, hdatum, hd, hend⟩
        rw [hc]
        exact .comment hbefore (hstands.dropped (by simpa using hx)) hgap'.dropped
      · rw [if_neg hx] at hdatum
        cases hdatum

/-- A word before the items. -/
theorem Found.after_word {name : Text} {items : List (SExpr Unit)} {r : Text}
    (hname : wordPrefix c.rest = some name)
    (h : ∀ {c' : Cursor}, c'.rest = c.rest.drop name.length → Found source c' items r) :
    Found source c (.word () name :: items) r := by
  have hstands : (SExpr.word ⟨source, c.pos, (c.skip name).pos⟩ name).Stands source c
      (c.skip name) := ⟨hname, rfl, rfl⟩
  exact Found.cons hstands (h rfl)

/-- A quoted word before the items. -/
theorem Found.after_quoted {name s : Text} {items : List (SExpr Unit)} {r : Text}
    (hc : c.rest = '\'' :: s) (hname : wordPrefix s = some name)
    (h : ∀ {c' : Cursor}, c'.rest = s.drop name.length → Found source c' items r) :
    Found source c (.quoted () name :: items) r := by
  have hstands : (SExpr.quoted ⟨source, c.pos, (c.skip ('\'' :: name)).pos⟩ name).Stands source c
      (c.skip ('\'' :: name)) := ⟨s, hc, hname, rfl, rfl⟩
  refine Found.cons hstands (h ?_)
  show c.rest.drop (name.length + 1) = s.drop name.length
  rw [hc, List.drop_succ_cons]

/-- A numeral before the items. -/
theorem Found.after_numeral {run : Text} {items : List (SExpr Unit)} {r : Text}
    (hrun : digitPrefix c.rest = some run)
    (h : ∀ {c' : Cursor}, c'.rest = c.rest.drop run.length → Found source c' items r) :
    Found source c (.numeral () run :: items) r := by
  have hstands : (SExpr.numeral ⟨source, c.pos, (c.skip run).pos⟩ run).Stands source c
      (c.skip run) := ⟨hrun, rfl, rfl⟩
  exact Found.cons hstands (h rfl)

/-- What is read stands in the text. -/
theorem readItems_sound {fuel : Nat} {s r : Text} {items : List (SExpr Unit)}
    (h : readItems fuel s = some (items, r)) (source : String) {c : Cursor} (hc : c.rest = s) :
    Found source c items r := by
  induction fuel generalizing s r items c with
  | zero => cases h
  | succ fuel ih =>
      cases s with
      | nil =>
          cases h
          exact ⟨c, [], c, Cursor.Gap.refl c, rfl, rfl, hc, Or.inl rfl⟩
      | cons ch s =>
          have hs := Cursor.rest_skip (u := [ch]) (r := s) hc
          rw [readItems.eq_def] at h
          simp only at h
          by_cases hwhite : ch ∈ whitespace
          · rw [if_pos hwhite] at h
            exact Found.of_gap (u := [ch]) hc (ih h hs) fun s' _ hdropped =>
              hc ▸ .white hwhite hdropped
          rw [if_neg hwhite] at h
          by_cases hsemi : ch = ';'
          · rw [if_pos hsemi] at h
            exact Found.after_line (hsemi ▸ hc) fun hrest => ih h hrest
          rw [if_neg hsemi] at h
          by_cases hclose : ch = ')'
          · rw [if_pos hclose] at h
            cases h
            exact ⟨c, [], c, Cursor.Gap.refl c, rfl, rfl, hc, Or.inr ⟨s, by rw [hclose]⟩⟩
          rw [if_neg hclose] at h
          by_cases hopen : ch = '('
          · rw [if_pos hopen] at h
            subst hopen
            obtain ⟨⟨inner, r₁⟩, hinner, hrest⟩ := Option.bind_eq_some_iff.mp h
            cases r₁ with
            | nil => cases hrest
            | cons x r₁ =>
                by_cases hx : x = ')'
                · subst hx
                  obtain ⟨⟨ys, r₂⟩, hys, heq⟩ := Option.map_eq_some_iff.mp hrest
                  cases heq
                  exact Found.after_list hc (ih hinner hs) fun hr => ih hys hr
                · simp [hx] at hrest
          rw [if_neg hopen] at h
          by_cases hhash : ch = '#'
          · rw [if_pos hhash] at h
            subst hhash
            split at h
            · obtain ⟨⟨ys, r₁⟩, hys, hrest⟩ := Option.bind_eq_some_iff.mp h
              obtain ⟨zs, hdatum, heq⟩ := Option.map_eq_some_iff.mp hrest
              cases heq
              exact Found.after_comment hc
                (ih hys (Cursor.rest_skip (u := "#;".toList) hc)) hdatum
            · cases h
          rw [if_neg hhash] at h
          by_cases hquote : ch = '\''
          · rw [if_pos hquote] at h
            subst hquote
            obtain ⟨name, hname, hrest⟩ := Option.bind_eq_some_iff.mp h
            obtain ⟨⟨ys, r₁⟩, hys, heq⟩ := Option.map_eq_some_iff.mp hrest
            cases heq
            exact Found.after_quoted hc hname fun hrest => ih hys hrest
          rw [if_neg hquote] at h
          cases hname : wordPrefix (ch :: s) with
          | some name =>
              rw [hname] at h
              obtain ⟨⟨ys, r₁⟩, hys, heq⟩ := Option.map_eq_some_iff.mp h
              cases heq
              rw [← hc] at hname hys
              exact Found.after_word hname fun hrest => ih hys hrest
          | none =>
              rw [hname] at h
              cases hrun : digitPrefix (ch :: s) with
              | none => rw [hrun] at h; cases h
              | some run =>
                  rw [hrun] at h
                  obtain ⟨⟨ys, r₁⟩, hys, heq⟩ := Option.map_eq_some_iff.mp h
                  cases heq
                  rw [← hc] at hrun hys
                  exact Found.after_numeral hrun fun hrest => ih hys hrest

/-! ## What stands in the text is read -/

theorem readItems_white {fuel : Nat} {ch : Char} (h : ch ∈ whitespace) (s : Text) :
    readItems (fuel + 1) (ch :: s) = readItems fuel s := by
  rw [readItems.eq_def]
  simp only [h, if_true]

theorem readItems_line (fuel : Nat) (s : Text) :
    readItems (fuel + 1) (';' :: s) = readItems fuel (s.dropWhile (· ≠ '\n')) := rfl

theorem readItems_list {fuel : Nat} {s r r' : Text} {inner items : List (SExpr Unit)}
    (hinner : readItems fuel s = some (inner, ')' :: r))
    (h : readItems fuel r = some (items, r')) :
    readItems (fuel + 1) ('(' :: s) = some (.list () inner :: items, r') := by
  have hstep : readItems (fuel + 1) ('(' :: s) = (readItems fuel s).bind fun (items, r) =>
      match r with
      | ')' :: r => (readItems fuel r).map fun (xs, r) => (.list () items :: xs, r)
      | _ => none := rfl
  rw [hstep, hinner, Option.bind_some]
  simp only [h, Option.map_some]

theorem readItems_comment {fuel : Nat} {s r : Text} {items items' : List (SExpr Unit)}
    (h : readItems fuel s = some (items, r)) (hdatum : dropDatum items = some items') :
    readItems (fuel + 1) ('#' :: ';' :: s) = some (items', r) := by
  have hstep : readItems (fuel + 1) ('#' :: ';' :: s) =
      (readItems fuel s).bind fun (xs, r) => (dropDatum xs).map fun xs => (xs, r) := rfl
  rw [hstep, h, Option.bind_some]
  simp only [hdatum, Option.map_some]

theorem readItems_quoted {fuel : Nat} {name r r' : Text} {items : List (SExpr Unit)}
    (hname : wordPrefix (name ++ r) = some name) (h : readItems fuel r = some (items, r')) :
    readItems (fuel + 1) ('\'' :: (name ++ r)) = some (.quoted () name :: items, r') := by
  have hstep : ∀ s, readItems (fuel + 1) ('\'' :: s) = (wordPrefix s).bind fun name =>
      (readItems fuel (s.drop name.length)).map fun (xs, r) => (.quoted () name :: xs, r) :=
    fun _ => rfl
  rw [hstep, hname, Option.bind_some, List.drop_left, h, Option.map_some]

/-- Before a character that starts a word or a numeral, nothing else is looked for. -/
theorem readItems_token {fuel : Nat} {ch : Char} {s : Text}
    (h : (isWordStart ch || isDigit ch) = true) : readItems (fuel + 1) (ch :: s) =
      match wordPrefix (ch :: s), digitPrefix (ch :: s) with
      | some name, _ =>
        (readItems fuel ((ch :: s).drop name.length)).map fun (xs, r) => (.word () name :: xs, r)
      | none, some run =>
        (readItems fuel ((ch :: s).drop run.length)).map fun (xs, r) => (.numeral () run :: xs, r)
      | none, none => none := by
  have hother : ∀ x ∈ whitespace ++ [';', ')', '(', '#', '\''],
      (isWordStart x || isDigit x) = false := by decide
  have hnot : ch ∉ whitespace ++ [';', ')', '(', '#', '\''] := by
    intro hmem
    rw [hother ch hmem] at h
    cases h
  simp only [List.mem_append, List.mem_cons, List.not_mem_nil, or_false, not_or] at hnot
  obtain ⟨hwhite, hsemi, hclose, hopen, hhash, hquote⟩ := hnot
  rw [readItems.eq_def]
  simp only [hwhite, hsemi, hclose, hopen, hhash, hquote, if_false]

theorem readItems_word {fuel : Nat} {name r r' : Text} {items : List (SExpr Unit)}
    (hname : wordPrefix (name ++ r) = some name) (h : readItems fuel r = some (items, r')) :
    readItems (fuel + 1) (name ++ r) = some (.word () name :: items, r') := by
  obtain ⟨ch, t, rfl, hch⟩ := (IsWord.of_wordPrefix hname).head
  rw [List.cons_append] at hname ⊢
  rw [readItems_token (by rw [hch, Bool.true_or]), hname]
  simp only [← List.cons_append, List.drop_left, h, Option.map_some]

theorem readItems_numeral {fuel : Nat} {run r r' : Text} {items : List (SExpr Unit)}
    (hrun : digitPrefix (run ++ r) = some run) (h : readItems fuel r = some (items, r')) :
    readItems (fuel + 1) (run ++ r) = some (.numeral () run :: items, r') := by
  obtain ⟨ch, t, rfl, hch⟩ := head_of_digitPrefix hrun
  rw [List.cons_append] at hrun ⊢
  have hword : wordPrefix (ch :: (t ++ r)) = none :=
    wordPrefix_eq_none_of_head fun x hx => by
      cases hx
      exact isWordStart_of_isDigit hch
  rw [readItems_token (by rw [hch, Bool.or_true]), hword, hrun]
  simp only [← List.cons_append, List.drop_left, h, Option.map_some]

theorem dropWhile_before_newline {body r : Text} (h : '\n' ∉ body) :
    (body ++ '\n' :: r).dropWhile (· ≠ '\n') = '\n' :: r := by
  have hsplit := List.takeWhile_append_dropWhile (p := (· ≠ '\n')) (l := body ++ '\n' :: r)
  rw [Grammar.takeWhile_before_newline h] at hsplit
  exact List.append_cancel_left hsplit

theorem dropWhile_no_newline {body : Text} (h : '\n' ∉ body) :
    body.dropWhile (· ≠ '\n') = [] := by
  rw [List.dropWhile_eq_nil_iff]
  intro ch hch
  exact decide_eq_true fun he => h (he ▸ hch)

/-- What is to be shown for one amount of fuel. -/
def ReadsItems (source : String) (fuel : Nat) : Prop :=
  ∀ (c c₀ : Cursor) (xs : List (SExpr Location)) (d : Cursor), c.rest.length < fuel →
    c.Gap c₀ → SExpr.StandAll source xs c₀ d → (d.rest = [] ∨ ∃ t, d.rest = ')' :: t) →
      readItems fuel c.rest = some (SExpr.plainAll xs, d.rest)

/-- Items without a gap before them. -/
theorem readItems_of_standAll {fuel : Nat} (ih : ReadsItems source fuel)
    {xs : List (SExpr Location)} (hlen : c.rest.length < fuel + 1)
    (hxs : SExpr.StandAll source xs c d) (hend : d.rest = [] ∨ ∃ t, d.rest = ')' :: t) :
    readItems (fuel + 1) c.rest = some (SExpr.plainAll xs, d.rest) := by
  cases xs with
  | nil =>
      obtain rfl := hxs
      rcases hend with hnil | ⟨t, ht⟩
      · rw [hnil]
        rfl
      · rw [ht]
        rfl
  | cons x xs =>
      obtain ⟨m, c₁, hx, hgap, hall⟩ := hxs
      have hlt := hx.reaches.2
      have hrest := ih m c₁ xs d (by omega) hgap hall hend
      rw [SExpr.plainAll, SExpr.mapAll]
      cases x with
      | word loc name =>
          obtain ⟨hname, rfl, -⟩ := hx
          obtain ⟨r, hr⟩ := exists_of_wordPrefix hname
          rw [Cursor.rest_skip hr] at hrest
          rw [hr] at hname ⊢
          exact readItems_word hname hrest
      | quoted loc name =>
          obtain ⟨s, hs, hname, rfl, -⟩ := hx
          obtain ⟨r, rfl⟩ := exists_of_wordPrefix hname
          rw [Cursor.rest_skip (u := '\'' :: name) (r := r) hs] at hrest
          rw [hs]
          exact readItems_quoted hname hrest
      | numeral loc run =>
          obtain ⟨hrun, rfl, -⟩ := hx
          obtain ⟨r, hr⟩ := exists_of_digitPrefix hrun
          rw [Cursor.rest_skip hr] at hrest
          rw [hr] at hrun ⊢
          exact readItems_numeral hrun hrest
      | list loc items =>
          obtain ⟨c₂, e, ⟨s, hs⟩, hgap', hitems, ⟨s', hs'⟩, rfl, -⟩ := hx
          have hopen := Cursor.rest_skip (u := ['(']) (r := s) hs
          have hinner := ih _ c₂ items e (by rw [hopen]; rw [hs] at hlen; simpa using hlen) hgap'
            hitems (Or.inr ⟨s', hs'⟩)
          rw [hopen, hs'] at hinner
          rw [Cursor.rest_skip (u := [')']) (r := s') hs'] at hrest
          rw [hs]
          exact readItems_list hinner hrest

/-- The datum of a comment stands after the mark, and the gap goes on after it. -/
theorem exists_stands_of_comment {c₀ : Cursor} {s s₁ s₂ : Text} (hgap : c.Gap c₀)
    (hr : c.rest = "#;".toList ++ s) (h₁ : Dropped .trivia s s₁) (h₂ : Dropped .datum s₁ s₂)
    (h₃ : Dropped .trivia s₂ c₀.rest) :
    ∃ x c₁ m, SExpr.isDatum x = true ∧ (c.skip "#;".toList).Gap c₁ ∧ x.Stands source c₁ m ∧
      m.Gap c₀ := by
  have hrest := Cursor.rest_skip hr
  obtain ⟨u₁, hu₁⟩ := h₁.suffix
  obtain ⟨u₂, hu₂⟩ := h₂.suffix
  obtain ⟨u₃, hu₃⟩ := h₃.suffix
  have hc₁ := Cursor.rest_skip (hrest.trans hu₁)
  obtain ⟨x, m, hx, hstands, hm⟩ : StandsExtent source .datum _ s₂ :=
    exists_stands_of_dropped h₂ _ hc₁
  have hfirst : (c.skip "#;".toList).Gap ((c.skip "#;".toList).skip u₁) :=
    ⟨Cursor.reaches_skip (hrest.trans hu₁), by rw [hrest, hc₁]; exact h₁⟩
  have hreach : (c.skip "#;".toList).Reaches c₀ :=
    hgap.reaches.of_skip hr (w := u₁ ++ (u₂ ++ u₃)) (by rw [hu₁, hu₂, hu₃]; simp)
  have hreach₁ : ((c.skip "#;".toList).skip u₁).Reaches c₀ :=
    hreach.of_skip (hrest.trans hu₁) (w := u₂ ++ u₃) (by rw [hu₂, hu₃]; simp)
  obtain ⟨u, hu⟩ := hstands.reaches.1
  have hlast : m.Reaches c₀ := by
    rw [hu.eq_skip]
    exact hreach₁.of_skip hu.rest (w := u₃) (hm.trans hu₃)
  exact ⟨x, _, m, hx, hfirst, hstands, hlast, hm ▸ h₃⟩

theorem readItems_of_gap {fuel : Nat} (ih : ReadsItems source fuel) :
    ReadsItems source (fuel + 1) := by
  intro c c₀ xs d hlen hgap hxs hend
  have hdropped := hgap.dropped
  generalize hs : c.rest = s at hdropped
  generalize hs₀ : c₀.rest = s₀ at hdropped
  cases hdropped with
  | none =>
      obtain rfl := hgap.reaches.eq_of_rest (hs₀.trans hs.symm)
      exact hs ▸ readItems_of_standAll ih hlen hxs hend
  | @white ch s s' hch h =>
      subst hs₀
      have hrest := Cursor.rest_skip (u := [ch]) (r := s) hs
      have htail := ih _ c₀ xs d (by rw [hrest]; rw [hs] at hlen; simpa using hlen)
        (hgap.tail (u := [ch]) hs h) hxs hend
      rw [hrest] at htail
      rw [readItems_white hch, htail]
  | @line body s s' hbody h =>
      subst hs₀
      have hr : c.rest = (';' :: body) ++ '\n' :: s := hs
      have hrest := Cursor.rest_skip hr
      have htail := ih _ c₀ xs d (by
          rw [hrest]
          rw [hr, List.length_append, List.length_cons] at hlen
          omega) (hgap.tail hr (.white (by decide) h)) hxs hend
      rw [hrest] at htail
      rw [readItems_line, dropWhile_before_newline hbody, htail]
  | @lastLine body hbody =>
      have hr : c.rest = (';' :: body) ++ [] := hs.trans (List.append_nil _).symm
      have hrest := Cursor.rest_skip hr
      have htail := ih _ c₀ xs d (by
          rw [hrest]
          rw [hs, List.length_cons] at hlen
          simp only [List.length_nil]
          omega) (hgap.tail hr (hs₀ ▸ .none _)) hxs hend
      rw [hrest] at htail
      rw [readItems_line, dropWhile_no_newline hbody, htail]
  | @comment s s₁ s₂ s' h₁ h₂ h₃ =>
      subst hs₀
      have hr : c.rest = "#;".toList ++ s := hs
      have hrest := Cursor.rest_skip hr
      obtain ⟨x, c₁, m, hx, hfirst, hstands, hlast⟩ :
          ∃ x c₁ m, SExpr.isDatum x = true ∧ (c.skip "#;".toList).Gap c₁ ∧ x.Stands source c₁ m ∧
            m.Gap c₀ := exists_stands_of_comment hgap hr h₁ h₂ h₃
      have htail := ih _ _ (x :: xs) d (by
          rw [hrest]
          rw [hs, List.length_cons, List.length_cons] at hlen
          omega) hfirst ⟨m, c₀, hstands, hlast, hxs⟩ hend
      rw [hrest] at htail
      refine readItems_comment htail ?_
      rw [SExpr.plainAll, SExpr.mapAll, dropDatum, if_pos (by simpa using hx)]

/-- What stands in the text is read. -/
theorem readItems_complete (source : String) (fuel : Nat) : ReadsItems source fuel := by
  induction fuel with
  | zero =>
      intro c c₀ xs d hlen
      omega
  | succ fuel ih => exact readItems_of_gap ih

/-- A whole text is read just when S-expressions stand in it up to its end. -/
theorem readText_eq_some_iff {s : Text} {items : List (SExpr Unit)} (source : String) {c : Cursor}
    (hc : c.rest = s) : readText s = some items ↔ ∃ (c₀ : Cursor) (xs : List (SExpr Location))
      (d : Cursor), c.Gap c₀ ∧ SExpr.StandAll source xs c₀ d ∧ SExpr.plainAll xs = items ∧
        d.rest = [] := by
  constructor
  · intro h
    rw [readText] at h
    cases hread : readItems (s.length + 1) s with
    | none => rw [hread] at h; cases h
    | some found =>
        obtain ⟨xs, r⟩ := found
        rw [hread] at h
        cases r with
        | cons ch r => cases h
        | nil =>
            cases h
            obtain ⟨c₀, ys, d, hgap, hys, hplain, hd, -⟩ := readItems_sound hread source hc
            exact ⟨c₀, ys, d, hgap, hys, hplain, hd⟩
  · rintro ⟨c₀, xs, d, hgap, hxs, rfl, hd⟩
    have hread := readItems_complete source (s.length + 1) c c₀ xs d (by rw [hc]; omega) hgap hxs
      (Or.inl hd)
    rw [hc, hd] at hread
    rw [readText, hread]

/-! ## Reading and elaborating -/

/-- A program is returned, up to locations, just when its text is the first line and a text which
the reader and the elaborator turn into that program. -/
theorem exists_parseSource_eq_ok_iff (source : String) (s : Text) (forms : List TopLevel)
    (hbelow : BelowCeiling (parseSource source s ceiling)) :
    (∃ ts, parseSource source s ceiling = .ok ts ∧ ts.map TopLevel.bare = forms.map TopLevel.bare) ↔
      ∃ body items, s = Grammar.header ++ body ∧ readText body = some items ∧
        elaborateProgram (fun _ => .nowhere) items = some (forms.map TopLevel.bare) := by
  constructor
  · rintro ⟨ts, hts, hbare⟩
    obtain ⟨xs, c₁, d, r, hr, hgap, hxs, hmean, hd⟩ := stands_of_parseSource hts
    refine ⟨r, SExpr.plainAll xs, hr, ?_, ?_⟩
    · have hc := Cursor.rest_skip (c := Cursor.start s) hr
      exact (readText_eq_some_iff source hc).mpr ⟨c₁, xs, d, hgap, hxs, rfl, hd⟩
    · rw [elaborateProgram_plainAll, hmean, Option.map_some, hbare]
  · rintro ⟨body, items, hr, hread, hmean⟩
    have hc := Cursor.rest_skip (c := Cursor.start s) hr
    obtain ⟨c₁, xs, d, hgap, hxs, rfl, hd⟩ := (readText_eq_some_iff source hc).mp hread
    rw [elaborateProgram_plainAll] at hmean
    obtain ⟨ts, hts, hbare⟩ := Option.map_eq_some_iff.mp hmean
    exact ⟨ts, parseSource_of_stands hbelow hr hgap hxs hts hd, hbare⟩

/-- A program with a claim, a comment, a datum comment and a quoted word. -/
def shortProgram : Text :=
  "#lang pie\n(claim x Atom) ; a name\n#;(x (1)) (the Atom 'x)".toList

/-- The short program is returned, and the two stages return it too. -/
theorem exists_items_shortProgram : ∃ ts, parseSource "short.pie" shortProgram = .ok ts ∧
    ∃ body items, shortProgram = Grammar.header ++ body ∧ readText body = some items ∧
      elaborateProgram (fun _ => .nowhere) items = some (ts.map TopLevel.bare) := by
  obtain ⟨ts, hts⟩ : ∃ ts, parseSource "short.pie" shortProgram = .ok ts :=
    exists_eq_ok_of_isSome (by decide +kernel)
  have hbelow : BelowCeiling (parseSource "short.pie" shortProgram) := hts ▸ BelowCeiling.ok ts
  exact ⟨ts, hts,
    (exists_parseSource_eq_ok_iff "short.pie" shortProgram ts hbelow).mp ⟨ts, hts, rfl⟩⟩

end PieSyntax
