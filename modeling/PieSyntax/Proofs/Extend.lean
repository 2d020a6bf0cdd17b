import PieSyntax.Proofs.Layout
import PieSyntax.Proofs.Stuck

/-!
# Texts that go on

What stands in a text also stands in it when the text goes on, unless it ends where the text did: a
word may become longer there, and a line comment has no newline yet.  A newline settles both.

A single character at the end of a text leaves three possibilities.  It comes after everything, it is
swallowed by a comment, or it is a further character of the last word.  The characters that are looked
at here are those that something in a form begins or ends with; no word that is reserved ends with
one of them.

## Main results

* `SExpr.StandAfter.extend`, `SExpr.StandAfter.newline` — S-expressions in a text that goes on, with
  any text or with a newline.
* `SExpr.StandAfter.push` — S-expressions in a text with one more character.
* `Slot.Accepts.lengthened` — what a word fills, it fills when it is longer by one of the characters.
* `filledAt_word`, `filledAt_quoted`, `filledAt_list` — what fills a slot, wherever trivia come after.
-/

namespace PieSyntax

/-! ## After a newline -/

theorem boundary_newline (s : Text) : Boundary ('\n' :: s) :=
  boundary_of_startsTrivia (by decide) s

/-- A newline ends the trivia at the end of a text, whatever they are. -/
theorem Dropped.newline {x : Extent} {s s' : Text} (h : Dropped x s s') (hx : x = .trivia)
    (hend : s' = []) (r : Text) : Dropped .trivia (s ++ '\n' :: r) r := by
  induction h with
  | none s =>
      subst hend
      exact .white (by decide) (.none r)
  | white hch h ih => exact .white hch (ih rfl hend)
  | @line body s s' hbody h ih =>
      rw [List.cons_append, List.append_assoc, List.cons_append]
      exact .line hbody (ih rfl hend)
  | lastLine hbody => exact .line hbody (.none r)
  | comment h₁ h₂ h₃ ih₁ ih₂ ih₃ =>
      exact .comment (h₁.append (Or.inl h₂.solid.2)) (h₂.append (Or.inr ⟨rfl, boundary_newline r⟩))
        (ih₃ rfl hend)
  | word h => cases hx
  | digits h => cases hx
  | group h₁ h₂ ih₁ ih₂ => cases hx
  | nil s => cases hx
  | cons h₁ h₂ h₃ ih₁ ih₂ ih₃ => cases hx

namespace Cursor

variable {c d : Cursor} {v : Text}

/-- Trivia that come next are a gap. -/
theorem exists_gap_of_dropped {s' : Text} (h : Dropped .trivia c.rest s') :
    ∃ d, c.Gap d ∧ d.rest = s' := by
  obtain ⟨u, hu⟩ := h.suffix
  have hd := rest_skip hu
  exact ⟨c.skip u, ⟨reaches_skip hu, by rw [hd]; exact h⟩, hd⟩

theorem Reaches.extend (h : c.Reaches d) (v : Text) : (c.before v).Reaches (d.before v) := by
  obtain ⟨u, hu⟩ := h
  exact ⟨u, by rw [before_rest, before_rest, hu.rest, List.append_assoc], hu.offset, hu.pos⟩

theorem Gap.extend (h : c.Gap d) (hd : d.rest ≠ []) (v : Text) : (c.before v).Gap (d.before v) :=
  ⟨h.reaches.extend v, h.dropped.append (Or.inl hd)⟩

theorem Gap.newline (h : c.Gap d) (hd : d.rest = []) (v : Text) :
    ∃ e, (c.before ('\n' :: v)).Gap e ∧ e.rest = v := by
  have hdropped := h.dropped
  rw [hd] at hdropped
  exact exists_gap_of_dropped (hdropped.newline rfl rfl v)

/-- What gets to the end of a text starts where the text is, so nothing is left there either. -/
theorem Reaches.eq_of_nil (h : c.Reaches d) (hc : c.rest = []) : d = c := by
  have hle := h.length_le
  rw [hc] at hle
  exact h.eq_of_rest (by rw [hc]; exact List.eq_nil_of_length_eq_zero (Nat.le_zero.mp hle))

end Cursor

namespace SExpr

variable {source : String} {v : Text}

mutual

/-- An S-expression stands in a text that goes on, unless it goes on there too. -/
theorem StandsBy.extend {x : SExpr Location} {c m : Cursor} (h : x.Stands source c m)
    (hend : m.rest ≠ [] ∨ x.EndsBefore v) : x.Stands source (c.before v) (m.before v) := by
  match x with
  | .word loc name =>
      obtain ⟨hname, rfl, hloc⟩ := h
      obtain ⟨r, hr⟩ := exists_of_wordPrefix hname
      refine ⟨?_, Cursor.before_skip hr v, hloc⟩
      rw [Cursor.before_rest, hr]
      refine wordPrefix_append (hr ▸ hname) fun hnil => ?_
      rcases hend with hne | hboundary
      · exact absurd ((Cursor.rest_skip hr).trans hnil) hne
      · exact hboundary
  | .quoted loc name =>
      obtain ⟨r, hr, hname, rfl, hloc⟩ := h
      obtain ⟨r', rfl⟩ := exists_of_wordPrefix hname
      have hrest : c.rest = ('\'' :: name) ++ r' := hr
      refine ⟨name ++ r' ++ v, ?_, wordPrefix_append hname fun hnil => ?_,
        Cursor.before_skip hrest v, hloc⟩
      · rw [Cursor.before_rest, hr]
        rfl
      · rcases hend with hne | hboundary
        · exact absurd ((Cursor.rest_skip hrest).trans hnil) hne
        · exact hboundary
  | .numeral loc run =>
      obtain ⟨hrun, rfl, hloc⟩ := h
      obtain ⟨r, hr⟩ := exists_of_digitPrefix hrun
      refine ⟨?_, Cursor.before_skip hr v, hloc⟩
      rw [Cursor.before_rest, hr]
      refine digitPrefix_append (hr ▸ hrun) fun hnil => ?_
      rcases hend with hne | hdigit
      · exact absurd ((Cursor.rest_skip hr).trans hnil) hne
      · exact hdigit
  | .list loc items =>
      obtain ⟨c₁, d, ⟨r, hr⟩, hgap, hall, ⟨r', hr'⟩, rfl, hloc⟩ := h
      have hd : d.rest ≠ [] := by
        rw [hr']
        exact List.cons_ne_nil _ _
      have hopen := hgap.extend (StandAllBy.ne_nil hall hd) v
      rw [Cursor.before_skip (u := ['(']) hr] at hopen
      exact ⟨c₁.before v, d.before v, ⟨r ++ v, by rw [Cursor.before_rest, hr]; rfl⟩, hopen,
        StandAllBy.extend hall hd, ⟨r' ++ v, by rw [Cursor.before_rest, hr']; rfl⟩,
        Cursor.before_skip (u := [')']) hr' v, hloc⟩

theorem StandAllBy.extend {xs : List (SExpr Location)} {c d : Cursor}
    (h : StandAll source xs c d) (hd : d.rest ≠ []) :
    StandAll source xs (c.before v) (d.before v) := by
  match xs with
  | [] => exact congrArg (Cursor.before · v) h
  | x :: xs =>
      obtain ⟨m, c₁, hx, hgap, hxs⟩ := h
      have hc₁ := StandAllBy.ne_nil hxs hd
      have hm : m.rest ≠ [] := fun hnil => hc₁ (by rw [hgap.reaches.eq_of_nil hnil]; exact hnil)
      exact ⟨m.before v, c₁.before v, StandsBy.extend hx (Or.inl hm), hgap.extend hc₁ v,
        StandAllBy.extend hxs hd⟩

end

variable {xs : List (SExpr Location)} {c d : Cursor}

theorem StandAfter.extend (h : StandAfter source xs c d) (hd : d.rest ≠ []) (v : Text) :
    StandAfter source xs (c.before v) (d.before v) := by
  obtain ⟨c₁, hgap, hall⟩ := h
  exact ⟨c₁.before v, hgap.extend (hall.ne_nil hd) v, hall.extend hd⟩

theorem endsBefore_of_boundary (x : SExpr Location) (h : Boundary v) : x.EndsBefore v := by
  cases x with
  | word loc name => exact h
  | quoted loc name => exact h
  | numeral loc run => exact boundary_digit h
  | list loc items => trivial

/-- Before a newline everything that stands at the end of a text stays as it is. -/
theorem StandAllBy.newline (h : StandAll source xs c d) (hne : xs ≠ []) (hd : d.rest = [])
    (v : Text) : ∃ e, StandAll source xs (c.before ('\n' :: v)) e ∧ e.rest = v := by
  induction xs generalizing c with
  | nil => exact absurd rfl hne
  | cons x xs ih =>
      obtain ⟨m, c₁, hx, hgap, hxs⟩ := h
      have hstands := StandsBy.extend hx (Or.inr (endsBefore_of_boundary x (boundary_newline v)))
      cases xs with
      | nil =>
          obtain rfl := hxs
          obtain ⟨e, hafter, he⟩ := hgap.newline hd v
          exact ⟨e, ⟨_, e, hstands, hafter, rfl⟩, he⟩
      | cons y ys =>
          obtain ⟨e, hys, he⟩ := ih hxs (List.cons_ne_nil y ys)
          obtain ⟨m', c₂, hy, -⟩ := hxs
          exact ⟨e, ⟨_, _, hstands, hgap.extend hy.solid.2 _, hys⟩, he⟩

/-- After a newline comes the next item, whatever stood at the end of the text. -/
theorem StandAfter.newline (h : StandAfter source xs c d) (hd : d.rest = []) (v : Text) :
    ∃ e, StandAfter source xs (c.before ('\n' :: v)) e ∧ e.rest = v := by
  obtain ⟨c₁, hgap, hall⟩ := h
  cases xs with
  | nil =>
      obtain rfl := hall
      obtain ⟨e, hafter, he⟩ := hgap.newline hd v
      exact ⟨e, ⟨e, hafter, rfl⟩, he⟩
  | cons x xs =>
      obtain ⟨e, hxs, he⟩ := hall.newline (List.cons_ne_nil x xs) hd v
      obtain ⟨m, c₂, hx, -⟩ := hall
      exact ⟨e, ⟨_, hgap.extend hx.solid.2 _, hxs⟩, he⟩

end SExpr

/-! ## One more character -/

/-- The characters that begin or end something in a form and are no letters. -/
def marks : List Char := ['\'', '(', ')', '+', '-', '.']

variable {ch : Char}

theorem not_digit_of_mem_marks (hch : ch ∈ marks) : isDigit ch = false := by
  revert ch
  decide

/-- A word that goes on is a longer word. -/
theorem IsWord.concat {name : Text} (h : IsWord name) (hch : isSubsequent ch = true) :
    IsWord (name ++ [ch]) := by
  have hall : ∀ x ∈ name ++ [ch], isSubsequent x = true := by
    intro x hx
    rcases List.mem_append.mp hx with hx | hx
    · exact h.subsequent x hx
    · rw [List.mem_singleton.mp hx]
      exact hch
  have hstart : startsWord name = true := by
    by_cases hs : startsWord name = true
    · exact hs
    · rw [IsWord, wordPrefix_eq, if_neg hs] at h
      cases h
  rw [IsWord, wordPrefix_eq, if_pos (startsWord_append hstart [ch]),
    List.takeWhile_eq_self_iff.mpr hall]

/-- A word at the end of a text, with one more character. -/
theorem wordPrefix_concat {name : Text} (h : wordPrefix name = some name)
    (hch : isSubsequent ch = true) : wordPrefix (name ++ [ch]) = some (name ++ [ch]) :=
  IsWord.concat h hch

theorem boundary_singleton (h : ¬ isSubsequent ch = true) : Boundary [ch] := by
  intro x hx
  cases hx
  simpa using h

/-- A datum at the end of a text ends before one more character or with it. -/
theorem Dropped.push_datum {s : Text} (h : Dropped .datum s []) (hch : ch ∈ marks) :
    Dropped .datum (s ++ [ch]) [ch] ∨ Dropped .datum (s ++ [ch]) [] := by
  by_cases hsub : isSubsequent ch = true
  · generalize hend : ([] : Text) = s' at h
    cases h with
    | @word name r hname =>
        subst hend
        rw [List.append_nil] at hname ⊢
        refine Or.inr ?_
        rw [← List.append_nil (name ++ [ch])]
        exact .word (by rw [List.append_nil]; exact wordPrefix_concat hname hsub)
    | @digits run r hrun =>
        subst hend
        refine Or.inl ?_
        have hlonger := digitPrefix_append (v := [ch]) hrun fun _ x hx => by
          cases hx
          exact not_digit_of_mem_marks hch
        rw [List.append_assoc, List.nil_append] at hlonger ⊢
        exact .digits hlonger
    | group h₁ h₂ =>
        subst hend
        exact Or.inl (.group (h₁.append (Or.inl (Grammar.solid_of_dropped_data h₂).2))
          (h₂.append (Or.inl (List.cons_ne_nil _ _))))
  · exact Or.inl (h.append (Or.inr ⟨rfl, boundary_singleton hsub⟩))

/-- Trivia at the end of a text end before one more character or swallow it. -/
theorem Dropped.push {x : Extent} {s s' : Text} (h : Dropped x s s') (hx : x = .trivia)
    (hend : s' = []) (hch : ch ∈ marks) :
    Dropped .trivia (s ++ [ch]) [ch] ∨ Dropped .trivia (s ++ [ch]) [] := by
  induction h with
  | none s =>
      subst hend
      exact Or.inl (.none _)
  | white hwhite h ih => exact (ih rfl hend).imp (.white hwhite) (.white hwhite)
  | @line body s s' hbody h ih =>
      rw [List.cons_append, List.append_assoc, List.cons_append]
      exact (ih rfl hend).imp (.line hbody) (.line hbody)
  | @lastLine body hbody =>
      refine Or.inr (.lastLine fun hmem => ?_)
      rcases List.mem_append.mp hmem with hmem | hmem
      · exact hbody hmem
      · obtain rfl := List.mem_singleton.mp hmem
        revert hch
        decide
  | @comment s s₁ s₂ s' h₁ h₂ h₃ ih₁ ih₂ ih₃ =>
      have hbefore : Dropped .trivia (s ++ [ch]) (s₁ ++ [ch]) := h₁.append (Or.inl h₂.solid.2)
      by_cases hnil : s₂ = []
      · subst hnil
        rcases h₂.push_datum hch with hdatum | hdatum
        · exact Or.inl (.comment hbefore hdatum (.none _))
        · exact Or.inr (.comment hbefore hdatum (.none _))
      · have hdatum := h₂.append (r := [ch]) (Or.inl hnil)
        exact (ih₃ rfl hend).imp (.comment hbefore hdatum) (.comment hbefore hdatum)
  | word h => cases hx
  | digits h => cases hx
  | group h₁ h₂ ih₁ ih₂ => cases hx
  | nil s => cases hx
  | cons h₁ h₂ h₃ ih₁ ih₂ ih₃ => cases hx

theorem Cursor.Gap.push {c d : Cursor} (h : c.Gap d) (hd : d.rest = []) (hch : ch ∈ marks) :
    (c.before [ch]).Gap (d.before [ch]) ∨ ∃ e, (c.before [ch]).Gap e ∧ e.rest = [] := by
  have hdropped := h.dropped
  rw [hd] at hdropped
  refine (hdropped.push rfl rfl hch).imp (fun hlands => ?_) exists_gap_of_dropped
  refine ⟨h.reaches.extend [ch], ?_⟩
  rw [before_rest, before_rest, hd]
  exact hlands

/-- A word or a quoted word, and the same with one more character. -/
inductive SExpr.Lengthened (ch : Char) : SExpr Location → SExpr Location → Prop where
  | word (hsub : isSubsequent ch = true) (loc loc' : Location) (name : Text) :
    Lengthened ch (.word loc name) (.word loc' (name ++ [ch]))
  | quoted (hsub : isSubsequent ch = true) (loc loc' : Location) (name : Text) :
    Lengthened ch (.quoted loc name) (.quoted loc' (name ++ [ch]))

namespace SExpr

variable {source : String} {xs : List (SExpr Location)} {c d m : Cursor}

/-- An S-expression at the end of a text ends before one more character, or is longer by it. -/
theorem StandsBy.push {x : SExpr Location} (h : x.Stands source c m) (hm : m.rest = [])
    (hch : ch ∈ marks) : x.Stands source (c.before [ch]) (m.before [ch]) ∨
      ∃ y e, Lengthened ch x y ∧ y.Stands source (c.before [ch]) e ∧ e.rest = [] := by
  by_cases hsub : isSubsequent ch = true
  · cases x with
    | word loc name =>
        obtain ⟨hname, rfl, -⟩ := h
        obtain ⟨r, hr⟩ := exists_of_wordPrefix hname
        obtain rfl : r = [] := (Cursor.rest_skip hr).symm.trans hm
        rw [List.append_nil] at hr
        have hrest : (c.before [ch]).rest = (name ++ [ch]) ++ [] := by
          rw [Cursor.before_rest, hr, List.append_nil]
        refine Or.inr ⟨_, _, .word hsub loc _ name, ⟨?_, rfl, rfl⟩, Cursor.rest_skip hrest⟩
        rw [hr] at hname
        rw [hrest, List.append_nil]
        exact wordPrefix_concat hname hsub
    | quoted loc name =>
        obtain ⟨r, hr, hname, rfl, -⟩ := h
        obtain ⟨r', rfl⟩ := exists_of_wordPrefix hname
        obtain rfl : r' = [] := (Cursor.rest_skip (u := '\'' :: name) hr).symm.trans hm
        rw [List.append_nil] at hr hname
        have hrest : (c.before [ch]).rest = ('\'' :: (name ++ [ch])) ++ [] := by
          rw [Cursor.before_rest, hr, List.append_nil]
          rfl
        exact Or.inr ⟨_, _, .quoted hsub loc _ name, ⟨name ++ [ch], by rw [hrest, List.append_nil],
          wordPrefix_concat hname hsub, rfl, rfl⟩, Cursor.rest_skip hrest⟩
    | numeral loc run =>
        refine Or.inl (h.extend (Or.inr fun x hx => ?_))
        cases hx
        exact not_digit_of_mem_marks hch
    | list loc items => exact Or.inl (h.extend (Or.inr trivial))
  · exact Or.inl (h.extend (Or.inr (endsBefore_of_boundary x (boundary_singleton hsub))))

/-- The S-expressions stand in a text with one more character: it comes after them, or they and what
comes after them swallow it, or the last one is longer by it. -/
def Pushed (ch : Char) (R : List (SExpr Location) → Cursor → Prop)
    (xs : List (SExpr Location)) (d : Cursor) : Prop :=
  R xs (d.before [ch]) ∨ ∃ e, e.rest = [] ∧
    (R xs e ∨ ∃ ys x y, xs = ys ++ [x] ∧ Lengthened ch x y ∧ R (ys ++ [y]) e)

theorem StandAllBy.push (h : StandAll source xs c d) (hd : d.rest = []) (hch : ch ∈ marks) :
    Pushed ch (fun xs => StandAll source xs (c.before [ch])) xs d := by
  induction xs generalizing c with
  | nil => exact Or.inl (congrArg (Cursor.before · [ch]) h)
  | cons x xs ih =>
      obtain ⟨m, c₁, hx, hgap, hxs⟩ := h
      cases xs with
      | cons y ys =>
          have hys := ih hxs
          obtain ⟨m', c₂, hy, -⟩ := hxs
          have hc₁ := hy.solid.2
          have hm : m.rest ≠ [] := fun hnil => hc₁ (by rw [hgap.reaches.eq_of_nil hnil]; exact hnil)
          have hstands := hx.extend (v := [ch]) (Or.inl hm)
          have hafter := hgap.extend hc₁ [ch]
          rcases hys with hys | ⟨e, he, hys | ⟨zs, z, z', hsplit, hz, hys⟩⟩
          · exact Or.inl ⟨_, _, hstands, hafter, hys⟩
          · exact Or.inr ⟨e, he, Or.inl ⟨_, _, hstands, hafter, hys⟩⟩
          · exact Or.inr ⟨e, he, Or.inr ⟨x :: zs, z, z', by rw [hsplit]; rfl, hz,
              ⟨_, _, hstands, hafter, hys⟩⟩⟩
      | nil =>
          obtain rfl := hxs
          by_cases hm : m.rest = []
          · obtain rfl := hgap.reaches.eq_of_nil hm
            rcases hx.push hm hch with hstands | ⟨y, e, hy, hstands, he⟩
            · exact Or.inl ⟨_, _, hstands, Cursor.Gap.refl _, rfl⟩
            · exact Or.inr ⟨e, he, Or.inr ⟨[], x, y, rfl, hy, _, _, hstands, Cursor.Gap.refl _,
                rfl⟩⟩
          · have hstands := hx.extend (v := [ch]) (Or.inl hm)
            rcases hgap.push hd hch with hafter | ⟨e, hafter, he⟩
            · exact Or.inl ⟨_, _, hstands, hafter, rfl⟩
            · exact Or.inr ⟨e, he, Or.inl ⟨_, _, hstands, hafter, rfl⟩⟩

theorem StandAfter.push (h : StandAfter source xs c d) (hd : d.rest = []) (hch : ch ∈ marks) :
    Pushed ch (fun xs => StandAfter source xs (c.before [ch])) xs d := by
  obtain ⟨c₁, hgap, hall⟩ := h
  by_cases hc₁ : c₁.rest = []
  · obtain rfl : xs = [] := by
      cases xs with
      | nil => rfl
      | cons x xs =>
          obtain ⟨m, c₂, hx, -⟩ := hall
          exact absurd hc₁ hx.solid.2
    obtain rfl := hall
    rcases hgap.push hd hch with hafter | ⟨e, hafter, he⟩
    · exact Or.inl ⟨_, hafter, rfl⟩
    · exact Or.inr ⟨e, he, Or.inl ⟨e, hafter, rfl⟩⟩
  · have hafter := hgap.extend hc₁ [ch]
    rcases hall.push hd hch with hxs | ⟨e, he, hxs | ⟨ys, x, y, hsplit, hy, hxs⟩⟩
    · exact Or.inl ⟨_, hafter, hxs⟩
    · exact Or.inr ⟨e, he, Or.inl ⟨_, hafter, hxs⟩⟩
    · exact Or.inr ⟨e, he, Or.inr ⟨ys, x, y, hsplit, hy, _, hafter, hxs⟩⟩

end SExpr

/-! ## Longer words in their slots -/

/-- No reserved word ends with a mark. -/
theorem isFreeName_concat (name : Text) (hch : ch ∈ marks) :
    Grammar.isFreeName (name ++ [ch]) = true := by
  have hall : ∀ word ∈ reserved, ∀ x ∈ word.getLast?, x ∉ marks := by decide
  have hnot : name ++ [ch] ∉ reserved := fun hmem => hall _ hmem ch (by simp) hch
  simpa [Grammar.isFreeName] using hnot

/-- A name is accepted as a name and as an expression. -/
theorem Slot.accepts_word {s : Slot} {name : Text} (hs : s = .expr ∨ s = .name) (loc : Location)
    (hfree : Grammar.isFreeName name = true) : s.Accepts (.word loc name) := by
  rcases hs with rfl | rfl
  · refine ⟨⟨loc, .var name⟩, ?_⟩
    rw [elaborate, elaborateWord, (lookup_eq_none_of_isFreeName hfree).1]
    simp [hfree]
  · exact ⟨⟨loc, name⟩, by rw [elaborateName, if_pos hfree]; rfl⟩

/-- What a word fills, it fills when it is longer by a mark. -/
theorem Slot.Accepts.lengthened {s : Slot} {x y : SExpr Location} (h : s.Accepts x)
    (hxy : x.Lengthened ch y) (hch : ch ∈ marks) : s.Accepts y := by
  have hexpr : Slot.expr.Accepts y := by
    cases hxy with
    | word hsub loc loc' name => exact accepts_word (Or.inl rfl) loc' (isFreeName_concat name hch)
    | quoted hsub loc loc' name => exact ⟨_, rfl⟩
  cases s with
  | expr => exact hexpr
  | topLevel => exact hexpr.topLevel
  | name =>
      cases hxy with
      | word hsub loc loc' name => exact accepts_word (Or.inr rfl) loc' (isFreeName_concat name hch)
      | quoted hsub loc loc' name =>
          obtain ⟨b, hb⟩ := h
          cases hb
  | names =>
      obtain ⟨bs, hbs, -⟩ := h
      cases hxy <;> cases hbs
  | pair =>
      obtain ⟨b, hb⟩ := h
      cases hxy <;> cases hb
  | pairs =>
      obtain ⟨bs, hbs, -⟩ := h
      cases hxy <;> cases hbs

/-- The last item of a list may be longer by a mark. -/
theorem AcceptAll.lengthened {row : List Slot} {more : Option Slot} {xs : List (SExpr Location)}
    {x y : SExpr Location} (h : AcceptAll row more (xs ++ [x])) (hxy : x.Lengthened ch y)
    (hch : ch ∈ marks) : AcceptAll row more (xs ++ [y]) := by
  induction row generalizing xs with
  | nil =>
      cases more with
      | none => exact absurd h (by simp [AcceptAll])
      | some s =>
          intro z hz
          rcases List.mem_append.mp hz with hz | hz
          · exact h z (List.mem_append_left _ hz)
          · rw [List.mem_singleton.mp hz]
            exact (h x (by simp)).lengthened hxy hch
  | cons s row ih =>
      obtain ⟨z, zs, hsplit, hz, hzs⟩ := h
      cases xs with
      | nil =>
          obtain ⟨rfl, rfl⟩ := List.cons.inj hsplit
          exact ⟨y, [], rfl, hz.lengthened hxy hch, hzs⟩
      | cons w ws =>
          obtain ⟨rfl, rfl⟩ := List.cons.inj hsplit
          exact ⟨w, ws ++ [y], rfl, hz, ih hzs⟩

/-! ## Slots that are filled -/

/-- The text at the cursor fills the slot, and after trivia it goes on with `v`. -/
def Slot.FilledAt (source : String) (s : Slot) (c : Cursor) (v : Text) : Prop :=
  ∃ x m d, x.Stands source c m ∧ m.Gap d ∧ d.rest = v ∧ s.Accepts x

variable {source : String} {s : Slot} {c d : Cursor} {v w : Text}

theorem Slot.FilledAt.topLevel (hfilled : Slot.expr.FilledAt source c v) :
    Slot.topLevel.FilledAt source c v := by
  obtain ⟨x, m, d, hx, hgap, hd, haccepts⟩ := hfilled
  exact ⟨x, m, d, hx, hgap, hd, haccepts.topLevel⟩

/-- Where a list is opened, it is also opened when the text goes on. -/
theorem Cursor.before_open (w : Text) (h : ∃ r, c.rest = '(' :: r) :
    (c.skip ['(']).before w = (c.before w).skip ['('] ∧ ∃ r, (c.before w).rest = '(' :: r := by
  obtain ⟨r, hr⟩ := h
  exact ⟨before_skip (u := ['(']) hr w, r ++ w, by rw [before_rest, hr]; rfl⟩

theorem Cursor.exists_gap_skip {u : Text} (hc : c.rest = u ++ w) (hw : Dropped .trivia w v) :
    ∃ d, (c.skip u).Gap d ∧ d.rest = v :=
  exists_gap_of_dropped (by rw [rest_skip hc]; exact hw)

/-- A name fills the slots of names and of expressions. -/
theorem filledAt_word {name : Text} (hs : s = .expr ∨ s = .name) (hword : IsWord name)
    (hfree : Grammar.isFreeName name = true) (hc : c.rest = name ++ w) (hend : Boundary w)
    (hw : Dropped .trivia w v) : s.FilledAt source c v := by
  obtain ⟨d, hgap, hd⟩ := Cursor.exists_gap_skip hc hw
  refine ⟨.word ⟨source, c.pos, (c.skip name).pos⟩ name, c.skip name, d,
    ⟨wordPrefix_eq_some_iff.mpr ⟨w, hc, hword, hend⟩, rfl, rfl⟩, hgap, hd, ?_⟩
  exact Slot.accepts_word hs _ hfree

/-- A quoted word fills the slots of expressions. -/
theorem filledAt_quoted {name : Text} (hword : IsWord name) (hc : c.rest = '\'' :: (name ++ w))
    (hend : Boundary w) (hw : Dropped .trivia w v) : Slot.expr.FilledAt source c v := by
  obtain ⟨d, hgap, hd⟩ := Cursor.exists_gap_skip (u := '\'' :: name) hc hw
  exact ⟨.quoted ⟨source, c.pos, (c.skip ('\'' :: name)).pos⟩ name, c.skip ('\'' :: name), d,
    ⟨_, hc, wordPrefix_eq_some_iff.mpr ⟨w, rfl, hword, hend⟩, rfl, rfl⟩, hgap, hd, _, rfl⟩

/-- A list that has all its items fills a slot when it is closed. -/
theorem filledAt_list {lead xs : List (SExpr Location)} {σ : Shape} (hopens : s.Opens lead σ)
    (hr : ∃ r, c.rest = '(' :: r) (hxs : SExpr.StandAfter source (lead ++ xs) (c.skip ['(']) d)
    (hall : AcceptAll σ.first σ.more xs) (hd : d.rest = ')' :: w) (hw : Dropped .trivia w v) :
    s.FilledAt source c v := by
  obtain ⟨c₁, hgap, hxs⟩ := hxs
  obtain ⟨e, hafter, he⟩ := Cursor.exists_gap_skip (u := [')']) hd hw
  exact ⟨.list ⟨source, c.pos, (d.skip [')']).pos⟩ (lead ++ xs), d.skip [')'], e,
    ⟨c₁, d, hr, hgap, hxs, ⟨w, hd⟩, rfl, rfl⟩, hafter, he, hopens.accepts hall _⟩

end PieSyntax
