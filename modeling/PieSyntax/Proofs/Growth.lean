import PieSyntax.Proofs.Extend
import PieSyntax.Proofs.FormByForm
import PieSyntax.Proofs.Spans
import PieSyntax.Proofs.Trail

/-!
# Growing texts

A session on a text that goes on reads the same forms first.  A form that something follows does not
end because the text does, so it stands in the longer text as well; nor do the trivia between forms.
Only what stands at the very end may change: a word may go on there, and the trivia after the last
form may.  A closing parenthesis ends a form for good.

That a form stands in a text is no matter of the run that reads it, so nothing has to be said about
alternatives that were given up, or about where they looked.

## Main results

* `Grammar.eval_topLevel_of_stands` — a form that stands at a cursor is read there.
* `FormsRead.extend` — forms before another one are read in a text that goes on.
* `iterForms_append` — the forms of a text that goes on.
-/

namespace PieSyntax

variable {source : String} {ceiling k : Nat} {c d m : Cursor} {t : TopLevel} {x : SExpr Location}

/-! ## Forms that stand in a text -/

namespace Grammar

/-- A form is read where it stands, with the trivia after it, unless something is nested too
deeply. -/
theorem eval_topLevel_of_stands (hx : x.Stands source c m)
    (hmean : elaborateTopLevel id x = some t) :
    topLevel.eval (rules.call source k) source c = .interrupted .tooDeep ∨
      ∃ d, skip.eval (rules.call source k) source m = .ok () d ∧
        topLevel.eval (rules.call source k) source c = .ok t d := by
  have hreads : Parser.Reads (rules.call source k) source (.empty True) skip topLevel c t m :=
    reads_topLevel (skippable_of_cut trivial) hx hmean (closed_of_empty x m) (Or.inl trivial)
  rcases hreads with ⟨-, hdeep⟩ | hfollows
  · have hnone := hdeep [] rfl
    rw [Cursor.before_nil] at hnone
    exact Or.inl hnone
  · have hnone := hfollows [] rfl
    rw [Cursor.before_nil, Cursor.before_nil] at hnone
    rcases eval_skip_ok_or_tooDeep source k m with ⟨d, hskip⟩ | hdeep
    · exact Or.inr ⟨d, hskip, hnone.ok d hskip⟩
    · exact Or.inl (hnone.tooDeep hdeep)

/-- Trivia before something solid are skipped as far as there, unless they are nested too deeply. -/
theorem eval_skip_of_gap (h : c.Gap d) (hd : Solid d.rest) :
    skip.eval (rules.call source k) source c = .interrupted .tooDeep ∨
      skip.eval (rules.call source k) source c = .ok () d := by
  have hreturns : Parser.Returns (rules.call source k) source (.empty True) skip c () d :=
    returns_skip h (clear_of_solid hd) (Or.inl trivial)
  rcases hreturns.eval with ⟨-, hdeep⟩ | hok
  · exact Or.inl hdeep
  · exact Or.inr hok

end Grammar

/-! ## Forms in a text that goes on -/

theorem Solid.append {s : Text} (h : Solid s) (hne : s ≠ []) (v : Text) : Solid (s ++ v) := by
  obtain ⟨ch, r, rfl⟩ := List.exists_cons_of_ne_nil hne
  exact solid_cons (h ch rfl) (r ++ v)

variable {ts : List TopLevel} {text a b : Text}

/-- Where a form comes next, something solid comes next. -/
theorem FormsRead.solid (h : FormsRead source ceiling c ts d) (hd : Solid d.rest ∧ d.rest ≠ []) :
    Solid c.rest ∧ c.rest ≠ [] := by
  cases h with
  | nil c => exact hd
  | cons h hrest =>
      obtain ⟨x, m, hx, -, -⟩ := Grammar.stands_of_eval_topLevel h
      exact hx.solid

/-- A form that something solid comes after is read in a text that goes on. -/
theorem Grammar.run_topLevel_extend
    (h : rules.run ceiling source topLevel c = .ok t d) (hd : Solid d.rest ∧ d.rest ≠ [])
    (hbelow : (session source text (c.before b) ceiling).BelowCeiling) :
    rules.run ceiling source topLevel (c.before b) = .ok t (d.before b) := by
  obtain ⟨hsolid, hne⟩ := hd
  obtain ⟨x, m, hx, hmean, hskip⟩ := stands_of_eval_topLevel h
  have hgap := gap_of_eval_skip hskip
  have hm : m.rest ≠ [] := by
    intro hnil
    rw [hgap.reaches.eq_of_nil hnil] at hne
    exact hne hnil
  have hstands := hx.extend (v := b) (Or.inl hm)
  have hdeep := hbelow.run_ne_tooDeep hstands.solid.2
  rcases eval_topLevel_of_stands hstands hmean with habort | ⟨e, he, hok⟩
  · exact absurd habort hdeep
  · rcases eval_skip_of_gap (hgap.extend hne b) (hsolid.append hne b) with hcut | hlands
    · rw [hcut] at he
      cases he
    · rw [hlands] at he
      cases he
      exact hok

/-- Forms that something solid comes after are read in a text that goes on. -/
theorem FormsRead.extend (h : FormsRead source ceiling c ts d) (hd : Solid d.rest ∧ d.rest ≠ [])
    (hbelow : (session source text (c.before b) ceiling).BelowCeiling) :
    FormsRead source ceiling (c.before b) ts (d.before b) := by
  induction h with
  | nil c => exact .nil _
  | @cons c c₁ d t ts h hrest ih =>
      have hrun := Grammar.run_topLevel_extend h (hrest.solid hd) hbelow
      rw [session_of_ok hrun] at hbelow
      exact .cons hrun (ih hd hbelow)

/-! ## The last character of a form -/

/-- The text between two cursors is determined by what is left at both. -/
theorem Cursor.Passes.eq_of_skip {u u' r : Text} (hu : Cursor.Passes u c m) (hr : c.rest = u' ++ r)
    (hm : m = c.skip u') : u = u' := by
  have hrest : c.rest = u' ++ m.rest := by rw [hm, Cursor.rest_skip hr, hr]
  exact List.append_cancel_right (hu.rest.symm.trans hrest)

/-- What ends with a closing parenthesis is a list, and does not go on whatever comes next. -/
theorem SExpr.StandsBy.endsBefore_of_close {u : Text} (h : x.Stands source c m)
    (hu : Cursor.Passes u c m) (hlast : u.getLast? = some ')') (v : Text) : x.EndsBefore v := by
  have hmem : ')' ∈ u := List.mem_of_getLast? hlast
  cases x with
  | list loc items => trivial
  | word loc name =>
      obtain ⟨hname, hm, -⟩ := h
      obtain ⟨r, hr, hword, -⟩ := wordPrefix_eq_some_iff.mp hname
      rw [hu.eq_of_skip hr hm] at hmem
      have hsubsequent := hword.subsequent ')' hmem
      exact absurd hsubsequent (by decide)
  | quoted loc name =>
      obtain ⟨r, hr, hname, hm, -⟩ := h
      obtain ⟨r', rfl, hword, -⟩ := wordPrefix_eq_some_iff.mp hname
      have hquoted : c.rest = ('\'' :: name) ++ r' := hr
      rw [hu.eq_of_skip hquoted hm] at hmem
      rcases List.mem_cons.mp hmem with hquote | hmem
      · exact absurd hquote (by decide)
      · have hsubsequent := hword.subsequent ')' hmem
        exact absurd hsubsequent (by decide)
  | numeral loc run =>
      obtain ⟨hrun, hm, -⟩ := h
      obtain ⟨r, hr, -, hall, -⟩ := digitPrefix_eq_some_iff.mp hrun
      rw [hu.eq_of_skip hr hm] at hmem
      exact absurd (hall ')' hmem) (by decide)

/-! ## Sessions -/

theorem OffsetOf.unique {s : Text} {p : Position} {i j : Nat} (hi : OffsetOf s p i)
    (hj : OffsetOf s p j) : i = j :=
  (hj.2 i hi.1).mp ((hi.2 i hi.1).mpr rfl)

/-- Trivia before something solid are skipped in a text that goes on, and the session goes on there. -/
theorem iterForms_append_eq_session (hbelow : (iterForms source (a ++ b) ceiling).BelowCeiling)
    (htrivia : Grammar.rules.run ceiling source Grammar.trivia (.start a) = .ok () c)
    (hc : Solid c.rest ∧ c.rest ≠ []) :
    iterForms source (a ++ b) ceiling = session source (a ++ b) (c.before b) ceiling := by
  obtain ⟨hsolid, hne⟩ := hc
  obtain ⟨c', hrun, heq⟩ := hbelow.exists_session
  have hgap : (Cursor.start (a ++ b)).Gap (c.before b) :=
    (Grammar.gap_of_eval_trivia htrivia).extend hne b
  have hreturns : Parser.Returns (Grammar.rules.call source ceiling) source (.empty True)
      Grammar.trivia (.start (a ++ b)) () (c.before b) :=
    Grammar.returns_trivia hgap (clear_of_solid (hsolid.append hne b)) (Or.inl trivial)
  rcases hreturns.eval with ⟨-, hdeep⟩ | hok
  · cases hrun.symm.trans hdeep
  · cases hrun.symm.trans hok
    exact heq

/-- A form of a session that does not end with the text, or that ends with a closing parenthesis, is
the same form when the text goes on. -/
theorem iterForms_append (hbelow : (iterForms source (a ++ b) ceiling).BelowCeiling)
    (ht : (iterForms source a ceiling).forms[k]? = some t) {i j : Nat} (hspan : t.loc.SpansFrom a i j)
    (hend : j < a.length ∨ ((a.take j).drop i).getLast? = some ')') :
    (iterForms source (a ++ b) ceiling).forms[k]? = some t := by
  rcases iterForms_eq_or source a with ⟨c, htrivia, heq⟩ | hnone
  · rw [heq] at ht
    obtain ⟨ts, d, e, rfl, hforms, hrun⟩ := exists_formsRead_of_getElem? ht
    obtain ⟨x, m, hx, hmean, -⟩ := Grammar.stands_of_eval_topLevel hrun
    have hc := hforms.solid hx.solid
    have hlonger := iterForms_append_eq_session hbelow htrivia hc
    rw [hlonger] at hbelow ⊢
    have hforms' := hforms.extend hx.solid hbelow
    rw [hforms'.session_eq] at hbelow ⊢
    -- The form itself ends where it did, by one of the two conditions.
    have hd : d.At a :=
      ((Grammar.gap_of_eval_trivia htrivia).reaches.trans hforms.reaches).at (Cursor.start_at a)
    have hloc : t.loc = x.label := elaborateTopLevel_loc hmean
    have hplace := hx.spansFrom hd
    rw [← hloc] at hplace
    obtain rfl := hspan.start.unique hplace.start
    obtain rfl := hspan.finish.unique hplace.finish
    have hlast : m.rest ≠ [] ∨ x.EndsBefore b := by
      obtain ⟨u, hu⟩ := hx.reaches.1
      have hm := hu.at hd
      rcases hend with hlt | hclose
      · have hlength := hm.offset_add_length
        refine Or.inl fun hnil => ?_
        rw [hnil, List.length_nil] at hlength
        omega
      · rw [hd.slice hu] at hclose
        exact Or.inr (hx.endsBefore_of_close hu hclose b)
    have hstands := hx.extend hlast
    rcases Grammar.eval_topLevel_of_stands hstands hmean with hdeep | ⟨e', -, hok⟩
    · exact absurd hdeep (hbelow.run_ne_tooDeep hstands.solid.2)
    · rw [session_of_ok hok]
      simp
  · rw [hnone] at ht
    cases ht

/-- A text that breaks off within a datum that is commented out. -/
def cutOffComment : Text := "(f x) #;(y".toList

/-- The form before the comment is read whether or not the comment is complete. -/
theorem iterForms_append_cutOffComment :
    ∃ t, (iterForms memorySource cutOffComment).forms[0]? = some t ∧
      t.loc.SpansFrom cutOffComment 0 5 ∧
      (iterForms memorySource (cutOffComment ++ ") z".toList)).forms[0]? = some t := by
  have hbelow : (iterForms memorySource (cutOffComment ++ ") z".toList)).BelowCeiling := by
    decide +kernel
  have hlocs : (iterForms memorySource cutOffComment).forms.map (·.loc) =
      [⟨memorySource, ⟨1, 1⟩, ⟨1, 6⟩⟩] := by decide +kernel
  obtain ⟨t, hforms, hloc⟩ := List.map_eq_singleton_iff.mp hlocs
  have ht : (iterForms memorySource cutOffComment).forms[0]? = some t := by
    rw [hforms]
    rfl
  have hspan : t.loc.SpansFrom cutOffComment 0 5 := by
    rw [hloc]
    exact ⟨by decide, by unfold OffsetOf; decide, by unfold OffsetOf; decide⟩
  exact ⟨t, ht, hspan, iterForms_append hbelow ht hspan (Or.inl (by decide))⟩

end PieSyntax
