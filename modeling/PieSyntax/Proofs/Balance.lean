import PieSyntax.Proofs.Cut

/-!
# Balanced parentheses

Comments may hold parentheses that nothing closes, so it is the text outside of comments in which
parentheses are counted.  `Uncommented s t w` says that `w` is what is left, without comments, of the
part of `s` before its end `t`: line comments are left out up to their newline, and datum comments
together with their datum.  No comment may run into `t`.  That is why a part is told by where it ends
and is not a text of its own: without its comments `(f x)#;(g)` is `(f x)`, and `(f ;x)` is `(f `, but
in neither does a parenthesis at the end close the first one.

What stands in a text as an S-expression is balanced there: on the way no parenthesis is closed that
was not opened, and in the end none is open.  For a list more is true, since its own parentheses
enclose all others.

## Main results

* `Uncommented.exists_rest` — there is one way through a text outside of its comments.
* `SExpr.StandsBy.uncommented` — an S-expression is balanced outside of its comments.
* `SExpr.StandsBy.bracketed` — the parentheses of a list balance for the first time at its end.
* `Bracketed.eq_nil_of_append` — where a bracketed text ends is determined by where it starts.
-/

namespace PieSyntax

/-! ## Counting -/

/-- How many parentheses are open after the text. -/
def depth (s : Text) : Int := s.count '(' - s.count ')'

@[simp] theorem depth_nil : depth [] = 0 := rfl

@[simp] theorem depth_append (s t : Text) : depth (s ++ t) = depth s + depth t := by
  simp only [depth, List.count_append]
  omega

@[simp] theorem depth_open (s : Text) : depth ('(' :: s) = 1 + depth s := depth_append ['('] s

@[simp] theorem depth_close (s : Text) : depth (')' :: s) = -1 + depth s := depth_append [')'] s

/-- On the way no more parentheses are closed than were opened, and in the end as many. -/
structure Balanced (s : Text) : Prop where
  sane : ∀ p, p <+: s → 0 ≤ depth p
  closed : depth s = 0

/-- The parentheses balance at the end, and nowhere before. -/
structure BalancesAtEnd (s : Text) : Prop where
  opened : ∀ p, p <+: s → p ≠ [] → p ≠ s → 0 < depth p
  closed : depth s = 0

theorem depth_of_not_mem {s : Text} (hopen : '(' ∉ s) (hclose : ')' ∉ s) : depth s = 0 := by
  rw [depth, List.count_eq_zero_of_not_mem hopen, List.count_eq_zero_of_not_mem hclose]
  rfl

namespace Balanced

variable {s t : Text}

theorem of_not_mem (hopen : '(' ∉ s) (hclose : ')' ∉ s) : Balanced s where
  sane p hp := by
    have hzero : depth p = 0 :=
      depth_of_not_mem (fun h => hopen (hp.subset h)) fun h => hclose (hp.subset h)
    omega
  closed := depth_of_not_mem hopen hclose

theorem nil : Balanced [] := of_not_mem List.not_mem_nil List.not_mem_nil

theorem append (hs : Balanced s) (ht : Balanced t) : Balanced (s ++ t) where
  sane p hp := by
    rcases List.prefix_or_prefix_of_prefix hp (List.prefix_append s t) with hps | ⟨q, rfl⟩
    · exact hs.sane p hps
    · rw [depth_append, hs.closed, Int.zero_add]
      exact ht.sane q ((List.prefix_append_right_inj s).mp hp)
  closed := by rw [depth_append, hs.closed, ht.closed, Int.zero_add]

/-- Parentheses around a balanced text are the last to be closed. -/
theorem balancesAtEnd (hs : Balanced s) : BalancesAtEnd ('(' :: (s ++ [')'])) where
  opened p hp hne hlast := by
    rcases List.prefix_cons_iff.mp hp with rfl | ⟨q, rfl, hq⟩
    · exact absurd rfl hne
    · rcases List.prefix_concat_iff.mp hq with rfl | hq
      · exact absurd rfl hlast
      · have hle := hs.sane q hq
        rw [depth_open]
        omega
  closed := by simp [hs.closed]

end Balanced

theorem BalancesAtEnd.balanced {s : Text} (h : BalancesAtEnd s) : Balanced s where
  sane p hp := by
    by_cases hnil : p = []
    · exact Int.le_of_eq (by rw [hnil, depth_nil])
    · by_cases hall : p = s
      · exact Int.le_of_eq (by rw [hall, h.closed])
      · exact Int.le_of_lt (h.opened p hp hnil hall)
  closed := h.closed

/-! ## Comments -/

/-- The third text is what is left, without its comments, of the first text before the second, which
no comment runs into. -/
inductive Uncommented : Text → Text → Text → Prop where
  | nil (s : Text) : Uncommented s s []
  /-- A line comment ends before its newline, or at the end of the text. -/
  | line {body s t w : Text} (hbody : '\n' ∉ body) (hs : s = [] ∨ ∃ r, s = '\n' :: r)
    (h : Uncommented s t w) : Uncommented (';' :: (body ++ s)) t w
  /-- A datum comment ends with its datum. -/
  | datum {s s₁ s₂ t w : Text} (hbefore : Dropped .trivia s s₁) (hdatum : Dropped .datum s₁ s₂)
    (h : Uncommented s₂ t w) : Uncommented ('#' :: ';' :: s) t w
  /-- No comment starts with the character. -/
  | char {ch : Char} {s t w : Text} (hline : ch ≠ ';') (hdatum : ch = '#' → s.head? ≠ some ';')
    (h : Uncommented s t w) : Uncommented (ch :: s) t (ch :: w)

/-- The character is no parenthesis, and no comment starts with it. -/
def isPlain (ch : Char) : Bool := !(['(', ')', ';', '#'].contains ch)

theorem isPlain_of_isSubsequent {ch : Char} (h : isSubsequent ch = true) : isPlain ch = true := by
  have hnot : ∀ x ∈ ['(', ')', ';', '#'], isSubsequent x = false := by decide
  rw [isPlain, Bool.not_eq_true', ← Bool.not_eq_true, List.contains_iff_mem]
  intro hmem
  rw [hnot ch hmem] at h
  cases h

theorem isPlain_of_mem_whitespace : ∀ ch ∈ whitespace, isPlain ch = true := by decide

namespace Uncommented

variable {s t r w w' : Text}

theorem trans (h : Uncommented s t w) (h' : Uncommented t r w') : Uncommented s r (w ++ w') := by
  induction h with
  | nil s => exact h'
  | line hbody hs _ ih => exact .line hbody hs (ih h')
  | datum hbefore hdatum _ ih => exact .datum hbefore hdatum (ih h')
  | char hline hmark _ ih => exact .char hline hmark (ih h')

theorem suffix (h : Uncommented s t w) : ∃ u, s = u ++ t := by
  induction h with
  | nil s => exact ⟨[], rfl⟩
  | @line body s t w hbody hs h ih =>
      obtain ⟨u, rfl⟩ := ih
      exact ⟨';' :: (body ++ u), by simp⟩
  | datum hbefore hdatum h ih =>
      obtain ⟨u, rfl⟩ := ih
      obtain ⟨u₂, rfl⟩ := hdatum.suffix
      obtain ⟨u₁, rfl⟩ := hbefore.suffix
      exact ⟨'#' :: ';' :: (u₁ ++ (u₂ ++ u)), by simp⟩
  | @char ch s t w hline hmark h ih =>
      obtain ⟨u, rfl⟩ := ih
      exact ⟨ch :: u, rfl⟩

theorem length_le (h : Uncommented s t w) : t.length ≤ s.length := by
  obtain ⟨u, rfl⟩ := h.suffix
  rw [List.length_append]
  exact Nat.le_add_left _ _

theorem ne_nil (h : Uncommented s t w) (hne : t ≠ []) : s ≠ [] := by
  rintro rfl
  obtain ⟨u, hu⟩ := h.suffix
  exact hne (List.append_eq_nil_iff.mp hu.symm).2

/-- Characters that neither start a comment nor are parentheses. -/
theorem of_isPlain {u : Text} (hu : ∀ ch ∈ u, isPlain ch = true) (s : Text) :
    Uncommented (u ++ s) s u := by
  induction u with
  | nil => exact .nil s
  | cons ch u ih =>
      obtain ⟨hch, hu⟩ := List.forall_mem_cons.mp hu
      refine .char ?_ ?_ (ih hu)
      · rintro rfl
        cases hch
      · rintro rfl
        cases hch

/-- The text may go on, unless its end matters. -/
theorem append (h : Uncommented s t w) (hne : t ≠ []) (r : Text) :
    Uncommented (s ++ r) (t ++ r) w := by
  induction h with
  | nil s => exact .nil _
  | @line body s t w hbody hs h ih =>
      rcases hs with rfl | ⟨s', rfl⟩
      · exact absurd rfl (h.ne_nil hne)
      · rw [List.cons_append, List.append_assoc]
        exact .line hbody (Or.inr ⟨s' ++ r, rfl⟩) (ih hne)
  | @datum s s₁ s₂ t w hbefore hdatum h ih =>
      exact .datum (hbefore.append (Or.inl hdatum.solid.2))
        (hdatum.append (Or.inl (h.ne_nil hne))) (ih hne)
  | @char ch s t w hline hmark h ih =>
      refine .char hline (fun hch => ?_) (ih hne)
      obtain ⟨x, s', rfl⟩ := List.exists_cons_of_ne_nil (h.ne_nil hne)
      exact hmark hch

end Uncommented

theorem Balanced.of_isPlain {u : Text} (hu : ∀ ch ∈ u, isPlain ch = true) : Balanced u := by
  refine .of_not_mem (fun h => ?_) fun h => ?_
  · cases hu _ h
  · cases hu _ h

/-- What trivia leave outside of comments is whitespace. -/
theorem Dropped.uncommented {s s' : Text} (h : Dropped .trivia s s') :
    ∃ g, Uncommented s s' g ∧ ∀ ch ∈ g, isPlain ch = true := by
  generalize hx : Extent.trivia = x at h
  induction h with
  | none s => exact ⟨[], .nil s, List.forall_mem_nil _⟩
  | @white ch s s' hch h ih =>
      obtain ⟨g, hg, hplain⟩ := ih hx
      have hwhite : ∀ x ∈ [ch], isPlain x = true :=
        List.forall_mem_singleton.mpr (isPlain_of_mem_whitespace ch hch)
      exact ⟨ch :: g, (Uncommented.of_isPlain hwhite s).trans hg,
        List.forall_mem_cons.mpr ⟨isPlain_of_mem_whitespace ch hch, hplain⟩⟩
  | @line body s s' hbody h ih =>
      obtain ⟨g, hg, hplain⟩ := ih hx
      have hnewline : ∀ x ∈ ['\n'], isPlain x = true := by decide
      exact ⟨'\n' :: g, .line hbody (Or.inr ⟨s, rfl⟩) ((Uncommented.of_isPlain hnewline s).trans hg),
        List.forall_mem_cons.mpr ⟨by decide, hplain⟩⟩
  | @lastLine body hbody =>
      refine ⟨[], ?_, List.forall_mem_nil _⟩
      rw [← List.append_nil body]
      exact .line hbody (Or.inl rfl) (.nil [])
  | comment hbefore hdatum hafter _ _ ih =>
      obtain ⟨g, hg, hplain⟩ := ih rfl
      exact ⟨g, .datum hbefore hdatum hg, hplain⟩
  | word h => cases hx
  | digits h => cases hx
  | group _ _ _ _ => cases hx
  | nil s => cases hx
  | cons _ _ _ _ _ _ => cases hx

/-! ## One reading -/

/-- Where what is dropped comes to its end: trivia before something else, and data before the
parenthesis of their group. -/
def Extent.EndsAt : Extent → Text → Prop
  | .trivia, s => Solid s ∧ s ≠ []
  | .datum, _ => True
  | .data, s => ∃ r, s = ')' :: r

theorem eq_of_append_newline {u v s t : Text} (hu : '\n' ∉ u) (hv : '\n' ∉ v)
    (h : u ++ '\n' :: s = v ++ '\n' :: t) : s = t := by
  induction u generalizing v with
  | nil =>
      cases v with
      | nil => exact (List.cons.inj h).2
      | cons ch v => exact absurd (List.mem_cons.mpr (Or.inl (List.cons.inj h).1)) hv
  | cons ch u ih =>
      cases v with
      | nil => exact absurd (List.mem_cons.mpr (Or.inl (List.cons.inj h).1.symm)) hu
      | cons ch' v =>
          exact ih (fun hmem => hu (List.mem_cons_of_mem _ hmem))
            (fun hmem => hv (List.mem_cons_of_mem _ hmem)) (List.cons.inj h).2

theorem startsTrivia_of_mem_whitespace {ch : Char} (hch : ch ∈ whitespace) :
    startsTrivia ch = true :=
  List.contains_iff_mem.mpr (List.mem_append_left _ hch)

/-- Nothing is dropped before a text that does not start as trivia do. -/
theorem Dropped.eq_of_solid {s s' : Text} (h : Dropped .trivia s s') (hs : Solid s) : s' = s := by
  have hnot : ∀ {ch : Char} {t : Text}, s = ch :: t → startsTrivia ch = false := by
    rintro ch t rfl
    exact hs ch rfl
  cases h with
  | none s => rfl
  | white hch h =>
      exact absurd ((startsTrivia_of_mem_whitespace hch).symm.trans (hnot rfl)) (by decide)
  | line hbody h => exact absurd (hnot rfl) (by decide)
  | lastLine hbody => exact absurd (hnot rfl) (by decide)
  | comment hbefore hdatum hafter => exact absurd (hnot rfl) (by decide)

/-- Neither a word nor a run of digits starts with a parenthesis. -/
theorem prefixes_of_paren {ch : Char} (hch : ch = '(' ∨ ch = ')') (s : Text) :
    wordPrefix (ch :: s) = none ∧ digitPrefix (ch :: s) = none := by
  refine ⟨wordPrefix_eq_none_of_head fun x hx => ?_, digitPrefix_eq_none_of_head fun x hx => ?_⟩
  all_goals
    cases hx
    rcases hch with rfl | rfl <;> decide

/-- A datum does not start with a closing parenthesis. -/
theorem Dropped.not_close {r s' : Text} (h : Dropped .datum (')' :: r) s') : False := by
  obtain ⟨hword, hdigits⟩ := prefixes_of_paren (Or.inr rfl) r
  generalize ht : ')' :: r = t at h
  cases h with
  | word h =>
      rw [← ht, hword] at h
      cases h
  | digits h =>
      rw [← ht, hdigits] at h
      cases h
  | group _ _ => cases ht

/-! Each way in which what is dropped may start leaves one way to go on. -/

theorem Dropped.after_white {ch : Char} {s b : Text} (h : Dropped .trivia (ch :: s) b)
    (hch : ch ∈ whitespace) (hb : Extent.trivia.EndsAt b) : Dropped .trivia s b := by
  generalize ht : ch :: s = t at h
  cases h with
  | none t =>
      subst ht
      exact absurd ((startsTrivia_of_mem_whitespace hch).symm.trans (hb.1 ch rfl)) (by decide)
  | white hch' h =>
      cases ht
      exact h
  | line _ _ =>
      cases ht
      exact absurd hch (by decide)
  | lastLine _ => exact absurd rfl hb.2
  | comment _ _ _ =>
      cases ht
      exact absurd hch (by decide)

theorem Dropped.after_line {body s b : Text} (h : Dropped .trivia (';' :: (body ++ '\n' :: s)) b)
    (hbody : '\n' ∉ body) (hb : Extent.trivia.EndsAt b) : Dropped .trivia s b := by
  generalize ht : ';' :: (body ++ '\n' :: s) = t at h
  cases h with
  | none t =>
      subst ht
      exact absurd (hb.1 ';' rfl) (by decide)
  | white hch _ =>
      cases ht
      exact absurd hch (by decide)
  | line hbody' h =>
      obtain rfl := eq_of_append_newline hbody hbody' (List.cons.inj ht).2
      exact h
  | lastLine _ => exact absurd rfl hb.2
  | comment _ _ _ => cases ht

theorem Dropped.after_hash {s b : Text} (h : Dropped .trivia ('#' :: ';' :: s) b)
    (hb : Extent.trivia.EndsAt b) :
    ∃ s₁ s₂, Dropped .trivia s s₁ ∧ Dropped .datum s₁ s₂ ∧ Dropped .trivia s₂ b := by
  generalize ht : '#' :: ';' :: s = t at h
  cases h with
  | none t =>
      subst ht
      exact absurd (hb.1 '#' rfl) (by decide)
  | white hch _ =>
      cases ht
      exact absurd hch (by decide)
  | line _ _ => cases ht
  | lastLine _ => exact absurd rfl hb.2
  | comment hbefore hdatum hafter =>
      cases ht
      exact ⟨_, _, hbefore, hdatum, hafter⟩

theorem Dropped.after_word {name r b : Text} (h : Dropped .datum (name ++ r) b)
    (hname : wordPrefix (name ++ r) = some name) : b = r := by
  generalize ht : name ++ r = t at h
  cases h with
  | word hname' =>
      rw [← ht, hname, Option.some.injEq] at hname'
      subst hname'
      exact (List.append_cancel_left ht).symm
  | digits hrun =>
      rw [ht, wordPrefix_of_digitPrefix hrun] at hname
      cases hname
  | group _ _ =>
      rw [ht, (prefixes_of_paren (Or.inl rfl) _).1] at hname
      cases hname

theorem Dropped.after_digits {run r b : Text} (h : Dropped .datum (run ++ r) b)
    (hrun : digitPrefix (run ++ r) = some run) : b = r := by
  generalize ht : run ++ r = t at h
  cases h with
  | word hname =>
      rw [← ht, wordPrefix_of_digitPrefix hrun] at hname
      cases hname
  | digits hrun' =>
      rw [← ht, hrun, Option.some.injEq] at hrun'
      subst hrun'
      exact (List.append_cancel_left ht).symm
  | group _ _ =>
      rw [ht, (prefixes_of_paren (Or.inl rfl) _).2] at hrun
      cases hrun

theorem Dropped.after_open {s b : Text} (h : Dropped .datum ('(' :: s) b) :
    ∃ s₁, Dropped .trivia s s₁ ∧ Dropped .data s₁ (')' :: b) := by
  generalize ht : '(' :: s = t at h
  cases h with
  | word hname =>
      rw [← ht, (prefixes_of_paren (Or.inl rfl) _).1] at hname
      cases hname
  | digits hrun =>
      rw [← ht, (prefixes_of_paren (Or.inl rfl) _).2] at hrun
      cases hrun
  | group hbefore hdata =>
      cases ht
      exact ⟨_, hbefore, hdata⟩

/-- The extent of what is dropped is determined. -/
theorem Dropped.unique {x : Extent} {s a b : Text} (ha : Dropped x s a) (hb : Dropped x s b)
    (hendA : x.EndsAt a) (hendB : x.EndsAt b) : a = b := by
  induction ha generalizing b with
  | none s => exact (hb.eq_of_solid hendA.1).symm
  | white hch h ih => exact ih (hb.after_white hch hendB) hendA hendB
  | line hbody h ih => exact ih (hb.after_line hbody hendB) hendA hendB
  | lastLine hbody => exact absurd rfl hendA.2
  | comment hbefore hdatum hafter ih₁ ih₂ ih₃ =>
      obtain ⟨t₁, t₂, hbefore', hdatum', hafter'⟩ := hb.after_hash hendB
      obtain rfl := ih₁ hbefore' hdatum.solid hdatum'.solid
      obtain rfl := ih₂ hdatum' trivial trivial
      exact ih₃ hafter' hendA hendB
  | word hname => exact (hb.after_word hname).symm
  | digits hrun => exact (hb.after_digits hrun).symm
  | group hbefore hdata ih₁ ih₂ =>
      obtain ⟨t₁, hbefore', hdata'⟩ := hb.after_open
      obtain rfl := ih₁ hbefore' (Grammar.solid_of_dropped_data hdata)
        (Grammar.solid_of_dropped_data hdata')
      exact (List.cons.inj (ih₂ hdata' ⟨_, rfl⟩ ⟨_, rfl⟩)).2
  | nil s =>
      obtain ⟨r, rfl⟩ := hendA
      generalize ht : ')' :: r = t at hb
      cases hb with
      | nil t => rfl
      | cons hdatum _ _ =>
          subst ht
          exact hdatum.not_close.elim
  | cons hdatum hafter hdata ih₁ ih₂ ih₃ =>
      cases hb with
      | nil t =>
          obtain ⟨r, rfl⟩ := hendB
          exact hdatum.not_close.elim
      | cons hdatum' hafter' hdata' =>
          obtain ⟨r, rfl⟩ := hendA
          obtain ⟨r', rfl⟩ := hendB
          obtain rfl := ih₁ hdatum' trivial trivial
          obtain rfl := ih₂ hafter' (Grammar.solid_of_dropped_data hdata)
            (Grammar.solid_of_dropped_data hdata')
          exact ih₃ hdata' ⟨_, rfl⟩ ⟨_, rfl⟩

/-- A line comment ends at one place. -/
theorem eq_of_append_line {u v s t : Text} (hu : '\n' ∉ u) (hv : '\n' ∉ v)
    (hs : s = [] ∨ ∃ r, s = '\n' :: r) (ht : t = [] ∨ ∃ r, t = '\n' :: r) (h : u ++ s = v ++ t) :
    s = t := by
  have hnewline : ∀ {u v r : Text}, '\n' ∉ v → u ++ '\n' :: r ≠ v := by
    rintro u v r hv rfl
    exact hv (by simp)
  rcases hs with rfl | ⟨r, rfl⟩
  · rcases ht with rfl | ⟨r', rfl⟩
    · rfl
    · rw [List.append_nil] at h
      exact absurd h.symm (hnewline hu)
  · rcases ht with rfl | ⟨r', rfl⟩
    · rw [List.append_nil] at h
      exact absurd h (hnewline hv)
    · rw [eq_of_append_newline hu hv h]

/-- Of two ways without comments from one place the longer one goes on where the shorter one ends. -/
theorem Uncommented.exists_rest {s t t' w w' : Text} (h : Uncommented s t w)
    (h' : Uncommented s t' w') (hlen : t'.length ≤ t.length) :
    ∃ v, Uncommented t t' v ∧ w' = w ++ v := by
  induction h generalizing w' with
  | nil s => exact ⟨w', h', rfl⟩
  | @line body s t w hbody hs h ih =>
      have hle := h.length_le
      generalize hx : ';' :: (body ++ s) = x at h'
      cases h' with
      | nil x =>
          rw [← hx, List.length_cons, List.length_append] at hlen
          omega
      | line hbody' hs' h' =>
          obtain rfl := eq_of_append_line hbody hbody' hs hs' (List.cons.inj hx).2
          exact ih h' hlen
      | datum _ _ _ => cases hx
      | char hline _ _ => exact absurd (List.cons.inj hx).1.symm hline
  | @datum s s₁ s₂ t w hbefore hdatum h ih =>
      cases h' with
      | nil x =>
          obtain ⟨u₁, rfl⟩ := hbefore.suffix
          obtain ⟨u₂, rfl⟩ := hdatum.suffix
          have hle := h.length_le
          simp only [List.length_cons, List.length_append] at hlen
          omega
      | datum hbefore' hdatum' h' =>
          obtain rfl := hbefore.unique hbefore' hdatum.solid hdatum'.solid
          obtain rfl := hdatum.unique hdatum' trivial trivial
          exact ih h' hlen
      | char _ hmark _ => exact absurd rfl (hmark rfl)
  | @char ch s t w hline hmark h ih =>
      have hle := h.length_le
      generalize hx : ch :: s = x at h'
      cases h' with
      | nil x =>
          rw [← hx, List.length_cons] at hlen
          omega
      | line _ _ _ => exact absurd (List.cons.inj hx).1 hline
      | datum _ _ _ =>
          cases hx
          exact absurd rfl (hmark rfl)
      | char _ _ h' =>
          cases hx
          obtain ⟨v, hv, rfl⟩ := ih h' hlen
          exact ⟨v, hv, rfl⟩

/-! ## S-expressions -/

variable {source : String}

/-- What stands between two parentheses is balanced. -/
theorem exists_uncommented_inside {c c₁ d : Cursor} {r b : Text} (hr : c.rest = '(' :: r)
    (hgap : (c.skip ['(']).Gap c₁) (hb : Uncommented c₁.rest d.rest b) (hbalanced : Balanced b) :
    ∃ w, Uncommented r d.rest w ∧ Balanced w := by
  obtain ⟨g, hg, hplain⟩ := hgap.dropped.uncommented
  rw [Cursor.rest_skip (u := ['(']) hr] at hg
  exact ⟨g ++ b, hg.trans hb, (Balanced.of_isPlain hplain).append hbalanced⟩

mutual

/-- An S-expression is balanced outside of its comments. -/
theorem SExpr.StandsBy.uncommented {x : SExpr Location} {c m : Cursor} (h : x.Stands source c m) :
    ∃ b, Uncommented c.rest m.rest b ∧ Balanced b := by
  match x with
  | .word loc name =>
      obtain ⟨hname, rfl, -⟩ := h
      obtain ⟨r, hr, hword, -⟩ := wordPrefix_eq_some_iff.mp hname
      have hplain : ∀ ch ∈ name, isPlain ch = true :=
        fun ch hch => isPlain_of_isSubsequent (hword.subsequent ch hch)
      rw [Cursor.rest_skip hr, hr]
      exact ⟨name, .of_isPlain hplain r, .of_isPlain hplain⟩
  | .quoted loc name =>
      obtain ⟨r, hr, hname, rfl, -⟩ := h
      obtain ⟨r', rfl, hword, -⟩ := wordPrefix_eq_some_iff.mp hname
      have hplain : ∀ ch ∈ '\'' :: name, isPlain ch = true := List.forall_mem_cons.mpr
        ⟨by decide, fun ch hch => isPlain_of_isSubsequent (hword.subsequent ch hch)⟩
      rw [Cursor.rest_skip (u := '\'' :: name) hr, hr]
      exact ⟨'\'' :: name, .of_isPlain hplain r', .of_isPlain hplain⟩
  | .numeral loc run =>
      obtain ⟨hrun, rfl, -⟩ := h
      obtain ⟨r, hr, -, hdigits, -⟩ := digitPrefix_eq_some_iff.mp hrun
      have hplain : ∀ ch ∈ run, isPlain ch = true :=
        fun ch hch => isPlain_of_isSubsequent (isSubsequent_of_isDigit (hdigits ch hch))
      rw [Cursor.rest_skip hr, hr]
      exact ⟨run, .of_isPlain hplain r, .of_isPlain hplain⟩
  | .list loc items =>
      obtain ⟨c₁, d, ⟨r, hr⟩, hgap, hall, ⟨r', hr'⟩, rfl, -⟩ := h
      obtain ⟨b, hb, hbalanced⟩ := SExpr.StandAllBy.uncommented hall
      obtain ⟨w, hw, hinside⟩ := exists_uncommented_inside hr hgap hb hbalanced
      have hclose : Uncommented d.rest (d.skip [')']).rest [')'] := by
        rw [Cursor.rest_skip (u := [')']) hr', hr']
        exact .char (by decide) (fun h => absurd h (by decide)) (.nil r')
      refine ⟨'(' :: (w ++ [')']), ?_, hinside.balancesAtEnd.balanced⟩
      rw [hr]
      exact .char (by decide) (fun h => absurd h (by decide)) (hw.trans hclose)

theorem SExpr.StandAllBy.uncommented {xs : List (SExpr Location)} {c d : Cursor}
    (h : SExpr.StandAll source xs c d) : ∃ b, Uncommented c.rest d.rest b ∧ Balanced b := by
  match xs with
  | [] =>
      obtain rfl : d = c := h
      exact ⟨[], .nil _, .nil⟩
  | x :: xs =>
      obtain ⟨m, c₁, hx, hgap, hxs⟩ := h
      obtain ⟨b, hb, hbalanced⟩ := SExpr.StandsBy.uncommented hx
      obtain ⟨g, hg, hplain⟩ := hgap.dropped.uncommented
      obtain ⟨b', hb', hbalanced'⟩ := SExpr.StandAllBy.uncommented hxs
      exact ⟨b ++ (g ++ b'), hb.trans (hg.trans hb'),
        hbalanced.append ((Balanced.of_isPlain hplain).append hbalanced')⟩

end

/-! ## Bracketed texts -/

/-- The text is enclosed in parentheses.  Its last character is a closing one outside of comments,
and outside of comments the parentheses balance there for the first time. -/
def Bracketed (u : Text) : Prop :=
  ∃ v w, u = '(' :: (v ++ [')']) ∧ Uncommented (v ++ [')']) [')'] w ∧
    BalancesAtEnd ('(' :: (w ++ [')']))

/-- What a list spans is bracketed. -/
theorem SExpr.StandsBy.bracketed {loc : Location} {items : List (SExpr Location)} {c m : Cursor}
    {u : Text} (h : (SExpr.list loc items).Stands source c m) (hu : Cursor.Passes u c m) :
    Bracketed u := by
  -- The list in the text that ends where it does.
  have halone : (SExpr.list loc items).Stands source ⟨u, c.offset, c.pos⟩ ⟨[], m.offset, m.pos⟩ := by
    refine SExpr.StandsBy.cut (v := m.rest) ?_
    rw [Cursor.before, Cursor.before, ← hu.rest]
    exact h
  obtain ⟨c₁, d, ⟨r, hr⟩, hgap, hall, ⟨r', hr'⟩, hm, -⟩ := halone
  obtain rfl : [] = r' := (congrArg Cursor.rest hm).trans (Cursor.rest_skip (u := [')']) hr')
  obtain ⟨b, hb, hbalanced⟩ := SExpr.StandAllBy.uncommented hall
  obtain ⟨w, hw, hinside⟩ := exists_uncommented_inside hr hgap hb hbalanced
  rw [hr'] at hw
  obtain ⟨v, rfl⟩ := hw.suffix
  exact ⟨v, w, hr, hw, hinside.balancesAtEnd⟩

/-- A bracketed text does not go on: of those that start at one place none is longer than another. -/
theorem Bracketed.eq_nil_of_append {u r : Text} (h : Bracketed u) (h' : Bracketed (u ++ r)) :
    r = [] := by
  obtain ⟨v, w, rfl, hw, hends⟩ := h
  obtain ⟨v', w', hu, hw', hends'⟩ := h'
  have hv : v ++ [')'] ++ r = v' ++ [')'] := (List.cons.inj hu).2
  have hlong := hw.append (List.cons_ne_nil _ _) r
  rw [hv] at hlong
  obtain ⟨x, hx, rfl⟩ := hlong.exists_rest hw' (by simp)
  by_contra hne
  -- The parenthesis at which the shorter text ends is passed on the way to the end of the longer one.
  cases hx with
  | nil => exact hne rfl
  | @char ch s t x hline hmark hx =>
      have hpart : '(' :: (w ++ [')']) <+: '(' :: (w ++ ')' :: x ++ [')']) := ⟨x ++ [')'], by simp⟩
      have hopen := hends'.opened _ hpart (List.cons_ne_nil _ _) (by simp)
      rw [hends.closed] at hopen
      exact absurd hopen (by decide)

end PieSyntax
