import PieSyntax.Proofs.Stands

/-!
# Cutting off what comes later

What stands in a text stands in every part of that text which it does not go beyond: a word may come
to its end because the text does, but no shorter one is read there, and within a list nothing looks
at what comes after its closing parenthesis.  The other way round the end of the text matters, for
there a line comment needs no newline, and a word may have lost its last characters.

## Main results

* `Dropped.cut`, `Dropped.append` — what is dropped from a text.
* `SExpr.StandsBy.cut` — an S-expression that stands in a text.
-/

namespace PieSyntax

/-! ## Texts -/

/-- What comes before the same text is the same. -/
theorem append_cancel {s s' v : Text} (h : s ++ v = s' ++ v) : s = s' :=
  List.append_cancel_right h

theorem Boundary.left {s v : Text} (h : Boundary (s ++ v)) : Boundary s := by
  cases s with
  | nil => exact fun ch hch => by cases hch
  | cons ch s => exact h

theorem wordPrefix_cut {name r v : Text} (h : wordPrefix (name ++ (r ++ v)) = some name) :
    wordPrefix (name ++ r) = some name := by
  obtain ⟨r', hr, hword, hboundary⟩ := wordPrefix_eq_some_iff.mp h
  obtain rfl : r ++ v = r' := List.append_cancel_left hr
  exact wordPrefix_eq_some_iff.mpr ⟨r, rfl, hword, hboundary.left⟩

theorem digitPrefix_cut {run r v : Text} (h : digitPrefix (run ++ (r ++ v)) = some run) :
    digitPrefix (run ++ r) = some run := by
  obtain ⟨r', hr, hne, hall, hend⟩ := digitPrefix_eq_some_iff.mp h
  obtain rfl : r ++ v = r' := List.append_cancel_left hr
  refine digitPrefix_eq_some_iff.mpr ⟨r, rfl, hne, hall, ?_⟩
  cases r with
  | nil => exact fun ch hch => by cases hch
  | cons ch r => exact hend

/-- What is before the end of a text that was dropped from is not cut off. -/
theorem Dropped.exists_append {x : Extent} {s s' v : Text} (h : Dropped x s (s' ++ v)) :
    ∃ u, s = u ++ v := by
  obtain ⟨u, rfl⟩ := h.suffix
  exact ⟨u ++ s', (List.append_assoc u s' v).symm⟩

/-- What is dropped from a text is dropped from the part of it before `v`. -/
theorem Dropped.cut {x : Extent} {a b s s' v : Text} (h : Dropped x a b) (ha : a = s ++ v)
    (hb : b = s' ++ v) : Dropped x s s' := by
  induction h generalizing s s' with
  | none a =>
      obtain rfl : s = s' := List.append_cancel_right (ha.symm.trans hb)
      exact .none s
  | @white ch a b hch h ih =>
      subst hb
      obtain ⟨u, rfl⟩ := h.exists_append
      obtain rfl : ch :: u = s := append_cancel ha
      exact .white hch (ih rfl rfl)
  | @line body a b hbody h ih =>
      subst hb
      obtain ⟨u, rfl⟩ := h.exists_append
      have hs : ';' :: (body ++ '\n' :: u) = s :=
        append_cancel (by rw [← ha]; simp)
      subst hs
      exact .line hbody (ih rfl rfl)
  | lastLine hbody =>
      obtain ⟨rfl, rfl⟩ := List.append_eq_nil_iff.mp hb.symm
      rw [List.append_nil] at ha
      subst ha
      exact .lastLine hbody
  | @comment a a₁ a₂ b h₁ h₂ h₃ ih₁ ih₂ ih₃ =>
      subst hb
      obtain ⟨u₂, rfl⟩ := h₃.exists_append
      obtain ⟨u₁, rfl⟩ := h₂.exists_append
      obtain ⟨u, rfl⟩ := h₁.exists_append
      obtain rfl : '#' :: ';' :: u = s := append_cancel ha
      exact .comment (ih₁ rfl rfl) (ih₂ rfl rfl) (ih₃ rfl rfl)
  | @word name r h =>
      subst hb
      obtain rfl : name ++ s' = s :=
        List.append_cancel_right ((List.append_assoc name s' v).trans ha)
      exact .word (wordPrefix_cut h)
  | @digits run r h =>
      subst hb
      obtain rfl : run ++ s' = s :=
        List.append_cancel_right ((List.append_assoc run s' v).trans ha)
      exact .digits (digitPrefix_cut h)
  | @group a a₁ b h₁ h₂ ih₁ ih₂ =>
      subst hb
      obtain ⟨u₁, rfl⟩ : ∃ u, a₁ = u ++ v := by
        obtain ⟨u, rfl⟩ := h₂.suffix
        exact ⟨u ++ ')' :: s', by simp⟩
      obtain ⟨u, rfl⟩ := h₁.exists_append
      obtain rfl : '(' :: u = s := append_cancel ha
      exact .group (ih₁ rfl rfl) (ih₂ rfl rfl)
  | nil a =>
      obtain rfl : s = s' := List.append_cancel_right (ha.symm.trans hb)
      exact .nil s
  | @cons a a₁ a₂ b h₁ h₂ h₃ ih₁ ih₂ ih₃ =>
      subst hb
      obtain ⟨u₂, rfl⟩ := h₃.exists_append
      obtain ⟨u₁, rfl⟩ := h₂.exists_append
      obtain ⟨u, rfl⟩ := h₁.exists_append
      obtain rfl : u = s := List.append_cancel_right ha
      exact .cons (ih₁ rfl rfl) (ih₂ rfl rfl) (ih₃ rfl rfl)

theorem boundary_digit {s : Text} (h : Boundary s) : ∀ ch ∈ s.head?, isDigit ch = false := by
  intro ch hch
  by_cases hdigit : isDigit ch = true
  · have hnot := h ch hch
    rw [isSubsequent_of_isDigit hdigit] at hnot
    cases hnot
  · simpa using hdigit

/-- What is dropped from a text is dropped when the text goes on, unless its end matters: a line
comment may lack its newline there, and a word its last characters. -/
theorem Dropped.append {x : Extent} {s s' : Text} (h : Dropped x s s') {r : Text}
    (hend : s' ≠ [] ∨ x = .datum ∧ Boundary r) : Dropped x (s ++ r) (s' ++ r) := by
  induction h with
  | none s => exact .none _
  | white hch h ih => exact .white hch (ih hend)
  | @line body s s' hbody h ih =>
      rw [List.cons_append, List.append_assoc, List.cons_append]
      exact .line hbody (ih hend)
  | lastLine hbody =>
      rcases hend with hne | ⟨hx, -⟩
      · exact absurd rfl hne
      · cases hx
  | @comment s s₁ s₂ s' h₁ h₂ h₃ ih₁ ih₂ ih₃ =>
      have hne : s' ≠ [] := hend.resolve_right fun ⟨hx, _⟩ => by cases hx
      have hne₂ : s₂ ≠ [] := h₃.ne_nil hne
      exact .comment (ih₁ (Or.inl h₂.solid.2)) (ih₂ (Or.inl hne₂)) (ih₃ hend)
  | @word name s' h =>
      have hword : wordPrefix ((name ++ s') ++ r) = some name := by
        refine wordPrefix_append h fun hnil => ?_
        rcases hend with hne | ⟨-, hr⟩
        · exact absurd hnil hne
        · exact hr
      rw [List.append_assoc] at hword ⊢
      exact .word hword
  | @digits run s' h =>
      have hrun : digitPrefix ((run ++ s') ++ r) = some run := by
        refine digitPrefix_append h fun hnil => ?_
        rcases hend with hne | ⟨-, hr⟩
        · exact absurd hnil hne
        · exact boundary_digit hr
      rw [List.append_assoc] at hrun ⊢
      exact .digits hrun
  | group h₁ h₂ ih₁ ih₂ =>
      exact .group (ih₁ (Or.inl (Grammar.solid_of_dropped_data h₂).2))
        (ih₂ (Or.inl (List.cons_ne_nil _ _)))
  | nil s => exact .nil _
  | @cons s s₁ s₂ s' h₁ h₂ h₃ ih₁ ih₂ ih₃ =>
      have hne : s' ≠ [] := hend.resolve_right fun ⟨hx, _⟩ => by cases hx
      have hne₂ : s₂ ≠ [] := h₃.ne_nil hne
      have hne₁ : s₁ ≠ [] := h₂.ne_nil hne₂
      exact .cons (ih₁ (Or.inl hne₁)) (ih₂ (Or.inl hne₂)) (ih₃ hend)

/-! ## Cursors -/

namespace Cursor

variable {c d : Cursor} {v : Text}

theorem before_injective (h : c.before v = d.before v) : c = d := by
  obtain ⟨rest, offset, pos⟩ := c
  obtain ⟨rest', offset', pos'⟩ := d
  simp only [before, Cursor.mk.injEq] at h ⊢
  exact ⟨List.append_cancel_right h.1, h.2⟩

/-- On the way to a cursor before `v`, `v` is still to come. -/
theorem Reaches.exists_before (h : c.Reaches (d.before v)) : ∃ c' : Cursor, c = c'.before v := by
  obtain ⟨u, hu⟩ := h
  refine ⟨⟨u ++ d.rest, c.offset, c.pos⟩, ?_⟩
  obtain ⟨rest, offset, pos⟩ := c
  simp only [before, Cursor.mk.injEq, and_true]
  rw [List.append_assoc]
  exact hu.rest

theorem Reaches.cut (h : (c.before v).Reaches (d.before v)) : c.Reaches d := by
  obtain ⟨u, hu⟩ := h
  refine ⟨u, ?_, hu.offset, hu.pos⟩
  have hrest : c.rest ++ v = (u ++ d.rest) ++ v := by
    rw [List.append_assoc]
    exact hu.rest
  exact List.append_cancel_right hrest

theorem Gap.cut (h : (c.before v).Gap (d.before v)) : c.Gap d :=
  ⟨h.reaches.cut, h.dropped.cut rfl rfl⟩

/-- What was skipped before `v` stands before it. -/
theorem skip_cut {u : Text} {r : Text} (hr : (c.before v).rest = u ++ r)
    (h : d.before v = (c.before v).skip u) : c.rest = u ++ d.rest ∧ d = c.skip u := by
  have hrest : c.rest = u ++ d.rest := by
    have hd := rest_skip hr
    rw [← h] at hd
    rw [← hd] at hr
    exact List.append_cancel_right (hr.trans (List.append_assoc u d.rest v).symm)
  refine ⟨hrest, before_injective (v := v) ?_⟩
  rw [h, before_skip hrest]

end Cursor

/-! ## S-expressions -/

variable {source : String} {v : Text}

mutual

/-- An S-expression that ends before `v` stands in the part of the text before `v`. -/
theorem SExpr.StandsBy.cut {x : SExpr Location} {c m : Cursor}
    (h : x.Stands source (c.before v) (m.before v)) : x.Stands source c m := by
  match x with
  | .word loc name =>
      obtain ⟨hname, hm, hloc⟩ := h
      obtain ⟨r, hr⟩ := exists_of_wordPrefix hname
      obtain ⟨hrest, rfl⟩ := Cursor.skip_cut hr hm
      rw [Cursor.before_rest, hrest, List.append_assoc] at hname
      refine ⟨?_, rfl, hloc⟩
      rw [hrest]
      exact wordPrefix_cut hname
  | .quoted loc name =>
      obtain ⟨r, hr, hname, hm, hloc⟩ := h
      obtain ⟨r', rfl⟩ := exists_of_wordPrefix hname
      obtain ⟨hrest, rfl⟩ := Cursor.skip_cut (u := '\'' :: name) hr hm
      have hr' : r' = (c.skip ('\'' :: name)).rest ++ v := by
        rw [Cursor.before_rest, hrest] at hr
        exact (List.append_cancel_left ((List.append_assoc _ _ _).symm.trans hr)).symm
      rw [hr'] at hname
      exact ⟨name ++ (c.skip ('\'' :: name)).rest, hrest, wordPrefix_cut hname, rfl, hloc⟩
  | .numeral loc run =>
      obtain ⟨hrun, hm, hloc⟩ := h
      obtain ⟨r, hr⟩ := exists_of_digitPrefix hrun
      obtain ⟨hrest, rfl⟩ := Cursor.skip_cut hr hm
      rw [Cursor.before_rest, hrest, List.append_assoc] at hrun
      refine ⟨?_, rfl, hloc⟩
      rw [hrest]
      exact digitPrefix_cut hrun
  | .list loc items =>
      obtain ⟨c₁, d, ⟨r, hr⟩, hgap, hall, ⟨r', hr'⟩, hm, hloc⟩ := h
      obtain ⟨d, rfl⟩ : ∃ d' : Cursor, d = d'.before v := by
        have hclose := Cursor.reaches_skip (u := [')']) (r := r') hr'
        rw [← hm] at hclose
        exact hclose.exists_before
      obtain ⟨c₁, rfl⟩ := (StandAllBy.reaches hall).exists_before
      obtain ⟨hclose, rfl⟩ := Cursor.skip_cut (u := [')']) hr' hm
      have hopen : ∃ r, c.rest = '(' :: r ∧ (c.before v).skip ['('] = (c.skip ['(']).before v := by
        obtain ⟨c₀, hc₀⟩ := hgap.reaches.exists_before
        obtain ⟨hopen, -⟩ := Cursor.skip_cut (u := ['(']) hr hc₀.symm
        exact ⟨c₀.rest, hopen, (Cursor.before_skip hopen v).symm⟩
      obtain ⟨r, hopen, hskip⟩ := hopen
      rw [hskip] at hgap
      exact ⟨c₁, d, ⟨r, hopen⟩, hgap.cut, SExpr.StandAllBy.cut hall, ⟨_, hclose⟩, rfl, hloc⟩

theorem SExpr.StandAllBy.cut {xs : List (SExpr Location)} {c d : Cursor}
    (h : SExpr.StandAll source xs (c.before v) (d.before v)) : SExpr.StandAll source xs c d := by
  match xs with
  | [] => exact Cursor.before_injective h
  | x :: xs =>
      obtain ⟨m, c₁, hx, hgap, hxs⟩ := h
      obtain ⟨c₁, rfl⟩ := (StandAllBy.reaches hxs).exists_before
      obtain ⟨m, rfl⟩ := hgap.reaches.exists_before
      exact ⟨m, c₁, SExpr.StandsBy.cut hx, hgap.cut, SExpr.StandAllBy.cut hxs⟩

end

end PieSyntax
