import PieSyntax.Proofs.Extend
import PieSyntax.Proofs.Trail

/-!
# One of the characters that were waited for

When a text that ends where a trail does goes on with a character that was waited for there, the trail
goes on to the new end, or what was missing is there.  It need not be the same trail: the character
may make the keyword of a form a longer name, which is applied then, or end up in a comment.

## Main results

* `Stuck.push` — trails within a form.
* `Trail.push` — trails through a whole text.
-/

namespace PieSyntax

variable {source : String} {s : Slot} {c d h : Cursor} {ch : Char} {hints : List Char}

theorem Stuck.hints_subset (hstuck : Stuck source s c h hints) : ∀ ch ∈ hints, ch ∈ marks := by
  induction hstuck with
  | start s c => cases s <;> decide
  | word hs hu hr => rcases hu with rfl | rfl | rfl <;> decide
  | quoted hu hr => rcases hu with rfl | rfl | rfl <;> decide
  | item hopens hr hxs hrow hfirst hstuck ih => exact ih
  | close hopens hr hxs hall => decide
  | form hstuck ih => exact ih

/-- The text at the cursor fills the slot up to the end, or breaks off there. -/
def GoesOn (source : String) (s : Slot) (c : Cursor) : Prop :=
  s.FilledAt source c [] ∨ ∃ e hints, Stuck source s c e hints ∧ e.rest = []

theorem GoesOn.topLevel (h : GoesOn source .expr c) : GoesOn source .topLevel c := by
  rcases h with hfilled | ⟨e, hints, hstuck, he⟩
  · exact Or.inl hfilled.topLevel
  · exact Or.inr ⟨e, hints, .form hstuck, he⟩

/-- A list of which some items are in place breaks off where the text ends. -/
theorem exists_stuck_of_row {lead xs : List (SExpr Location)} {σ : Shape} {row rest : List Slot}
    (hopens : s.Opens lead σ) (hr : ∃ r, c.rest = '(' :: r)
    (hxs : SExpr.StandAfter source (lead ++ xs) (c.skip ['(']) d) (hrow : AcceptAll row none xs)
    (hfirst : σ.first = row ++ rest) : ∃ hints, Stuck source s c d hints := by
  cases rest with
  | nil =>
      rw [List.append_nil] at hfirst
      exact ⟨_, .close hopens hr hxs (hfirst ▸ hrow.of_row σ.more)⟩
  | cons t rest => exact ⟨_, .item hopens hr hxs hrow hfirst (.start t d)⟩

/-! ## At the start of a slot -/

/-- Dots and a character that was waited for after them make a word, or more dots. -/
theorem Dots.push {u : Text} (hu : Dots u) (hch : ch ∈ wordHints u) :
    (IsWord (u ++ [ch]) ∧ Grammar.isFreeName (u ++ [ch]) = true) ∨ Dots (u ++ [ch]) := by
  rcases hu with rfl | rfl | rfl
  · have hall : ∀ ch ∈ wordHints [], (IsWord [ch] ∧ Grammar.isFreeName [ch] = true) ∨ ch = '.' := by
      decide
    rcases hall ch hch with hword | rfl
    · exact Or.inl hword
    · exact Or.inr (Or.inr (Or.inl rfl))
  · obtain rfl : ch = '.' := by simpa [wordHints] using hch
    exact Or.inr (Or.inr (Or.inr rfl))
  · obtain rfl : ch = '.' := by simpa [wordHints] using hch
    exact Or.inl (by decide)

theorem boundary_nil : Boundary [] := by
  intro x hx
  cases hx

theorem goesOn_word {u : Text} (hs : s = .expr ∨ s = .name) (hu : Dots u) (hc : c.rest = u)
    (hch : ch ∈ wordHints u) : GoesOn source s (c.before [ch]) := by
  have hrest : (c.before [ch]).rest = (u ++ [ch]) ++ [] := by
    rw [Cursor.before_rest, hc, List.append_nil]
  rcases hu.push hch with ⟨hword, hfree⟩ | hdots
  · exact Or.inl (filledAt_word hs hword hfree hrest boundary_nil (.none []))
  · exact Or.inr ⟨_, _, .word hs hdots hrest, Cursor.rest_skip hrest⟩

theorem goesOn_quoted {u : Text} (hu : Dots u) (hc : c.rest = '\'' :: u) (hch : ch ∈ wordHints u) :
    GoesOn source .expr (c.before [ch]) := by
  have hrest : (c.before [ch]).rest = '\'' :: ((u ++ [ch]) ++ []) := by
    rw [Cursor.before_rest, hc, List.append_nil]
    rfl
  rcases hu.push hch with ⟨hword, -⟩ | hdots
  · exact Or.inl (filledAt_quoted hword hrest boundary_nil (.none []))
  · exact Or.inr ⟨_, _, .quoted hdots hrest, Cursor.rest_skip (u := '\'' :: (u ++ [ch])) hrest⟩

/-- An opening parenthesis begins a list, of which all items are missing. -/
theorem goesOn_open {σ : Shape} (hopens : s.Opens [] σ) (hc : c.rest = []) :
    GoesOn source s (c.before ['(']) := by
  have hrest : (c.before ['(']).rest = ['('] ++ [] := by rw [Cursor.before_rest, hc]; rfl
  have hnone : SExpr.StandAfter source ([] ++ []) ((c.before ['(']).skip ['('])
      ((c.before ['(']).skip ['(']) := .of_gap (.refl _)
  have hrow : AcceptAll [] none [] := rfl
  obtain ⟨hints, hstuck⟩ := exists_stuck_of_row hopens ⟨[], hrest⟩ hnone hrow rfl
  exact Or.inr ⟨_, hints, hstuck, Cursor.rest_skip hrest⟩

theorem goesOn_start (s : Slot) (hc : c.rest = []) (hch : ch ∈ s.hints) :
    GoesOn source s (c.before [ch]) := by
  have hexpr : ch ∈ Slot.expr.hints → GoesOn source .expr (c.before [ch]) := by
    intro hch
    have hall : ∀ ch ∈ Slot.expr.hints, ch = '\'' ∨ ch = '(' ∨ ch ∈ wordHints [] := by decide
    rcases hall ch hch with rfl | rfl | hword
    · have hrest : (c.before ['\'']).rest = ['\''] ++ [] := by rw [Cursor.before_rest, hc]; rfl
      exact Or.inr ⟨_, _, .quoted (u := []) (Or.inl rfl) hrest, Cursor.rest_skip hrest⟩
    · exact goesOn_open .application hc
    · exact goesOn_word (Or.inl rfl) (Or.inl rfl) hc hword
  have hopen : ∀ {σ : Shape}, s.hints = ['('] → s.Opens [] σ → GoesOn source s (c.before [ch]) := by
    intro σ hs hopens
    rw [hs] at hch
    rw [List.mem_singleton.mp hch]
    exact goesOn_open hopens hc
  cases s with
  | expr => exact hexpr hch
  | name => exact goesOn_word (Or.inr rfl) (Or.inl rfl) hc hch
  | names => exact hopen rfl .names
  | pair => exact hopen rfl .pair
  | pairs => exact hopen rfl .pairs
  | topLevel => exact (hexpr hch).topLevel

/-! ## Within a list -/

/-- The keyword of a list is longer by a character, so it is a name that is applied. -/
theorem goesOn_lead {lead ys : List (SExpr Location)} {σ : Shape} {x y : SExpr Location}
    (hopens : s.Opens lead σ) (hlead : lead = ys ++ [x]) (hxy : x.Lengthened ch y)
    (hch : ch ∈ marks) (hr : ∃ r, c.rest = '(' :: r)
    (hxs : SExpr.StandAfter source (ys ++ [y]) (c.skip ['(']) d) (hd : d.rest = []) :
    GoesOn source s c := by
  have happlied : ∀ {loc : Location} {name : Text}, [SExpr.word loc name] = ys ++ [x] →
      GoesOn source .expr c := by
    intro loc name hsplit
    obtain ⟨rfl, rfl⟩ : ys = [] ∧ x = .word loc name := by
      cases ys with
      | nil => exact ⟨rfl, (List.cons.inj hsplit).1.symm⟩
      | cons z zs => simp at hsplit
    cases hxy with
    | word hsub loc loc' name =>
        have happlied : AcceptAll [.expr] none [.word loc' (name ++ [ch])] :=
          ⟨_, [], rfl, Slot.accepts_word (Or.inl rfl) loc' (isFreeName_concat name hch), rfl⟩
        obtain ⟨hints, hstuck⟩ := exists_stuck_of_row .application hr hxs happlied rfl
        exact Or.inr ⟨d, hints, hstuck, hd⟩
  cases hopens with
  | application => simp at hlead
  | head hlookup => exact happlied hlead
  | names => simp at hlead
  | pair => simp at hlead
  | pairs => simp at hlead
  | command hlookup => exact (happlied hlead).topLevel

/-- The item that was missing, with the character. -/
theorem goesOn_item {t : Slot} {lead xs : List (SExpr Location)} {σ : Shape} {row rest : List Slot}
    (hopens : s.Opens lead σ) (hr : ∃ r, c.rest = '(' :: r)
    (hxs : SExpr.StandAfter source (lead ++ xs) (c.skip ['(']) d) (hrow : AcceptAll row none xs)
    (hfirst : σ.first = row ++ t :: rest) (ht : GoesOn source t d) : GoesOn source s c := by
  rcases ht with ⟨x, m, e, hx, hgap, he, haccepts⟩ | ⟨e, hints, hstuck, he⟩
  · have hys := hxs.concat hx hgap
    rw [List.append_assoc] at hys
    have hsplit : σ.first = (row ++ [t]) ++ rest := by rw [hfirst, List.append_assoc]; rfl
    obtain ⟨hints, hstuck⟩ := exists_stuck_of_row hopens hr hys (hrow.concat haccepts) hsplit
    exact Or.inr ⟨e, hints, hstuck, he⟩
  · exact Or.inr ⟨e, hints, .item hopens hr hxs hrow hfirst hstuck, he⟩

/-- With a character that was waited for, a slot whose filling broke off at the end of the text is
filled or breaks off at the new end. -/
theorem Stuck.push (hstuck : Stuck source s c h hints) (hend : h.rest = []) (hch : ch ∈ hints) :
    GoesOn source s (c.before [ch]) := by
  have hmark := hstuck.hints_subset ch hch
  induction hstuck with
  | start s c => exact goesOn_start s hend hch
  | word hs hu hr =>
      have hnil := (Cursor.rest_skip hr).symm.trans hend
      rw [hnil, List.append_nil] at hr
      exact goesOn_word hs hu hr hch
  | @quoted c u r hu hr =>
      have hnil := (Cursor.rest_skip (u := '\'' :: u) hr).symm.trans hend
      rw [hnil, List.append_nil] at hr
      exact goesOn_quoted hu hr hch
  | @item s t lead xs σ row rest c d h hints hopens hr hxs hrow hfirst hstuck ih =>
      obtain ⟨hskip, hr'⟩ := Cursor.before_open [ch] hr
      have hitem := ih hend hch
      by_cases hd : d.rest = []
      · rcases hxs.push hd hmark with hys | ⟨e, he, hys | ⟨ys, x, y, hsplit, hxy, hys⟩⟩
        · exact goesOn_item hopens hr' (hskip ▸ hys) hrow hfirst hitem
        · obtain ⟨hints', hstuck'⟩ := exists_stuck_of_row hopens hr' (hskip ▸ hys) hrow hfirst
          exact Or.inr ⟨e, hints', hstuck', he⟩
        · rcases List.eq_nil_or_concat xs with rfl | ⟨zs, z, rfl⟩
          · rw [List.append_nil] at hsplit
            exact goesOn_lead hopens hsplit hxy hmark hr' (hskip ▸ hys) he
          · rw [List.concat_eq_append] at hrow hsplit
            rw [← List.append_assoc] at hsplit
            obtain ⟨rfl, hlast⟩ := List.append_inj' hsplit rfl
            obtain rfl := List.singleton_inj.mp hlast
            rw [List.append_assoc] at hys
            obtain ⟨hints', hstuck'⟩ := exists_stuck_of_row hopens hr' (hskip ▸ hys)
              (hrow.lengthened hxy hmark) hfirst
            exact Or.inr ⟨e, hints', hstuck', he⟩
      · exact goesOn_item hopens hr' (hskip ▸ hxs.extend hd [ch]) hrow hfirst hitem
  | @close s lead xs σ c h hopens hr hxs hall =>
      obtain rfl := List.mem_singleton.mp hch
      obtain ⟨hskip, hr'⟩ := Cursor.before_open [')'] hr
      rcases hxs.push hend hmark with hys | ⟨e, he, hys | ⟨ys, x, y, hsplit, hxy, hys⟩⟩
      · refine Or.inl (filledAt_list (w := []) hopens hr' (hskip ▸ hys) hall ?_ (.none []))
        rw [Cursor.before_rest, hend]
        rfl
      · exact Or.inr ⟨e, _, .close hopens hr' (hskip ▸ hys) hall, he⟩
      · -- No word goes on with a parenthesis.
        have hnot : isSubsequent ')' = false := by decide
        cases hxy with
        | word hsub => exact absurd hsub (by rw [hnot]; simp)
        | quoted hsub => exact absurd hsub (by rw [hnot]; simp)
  | form hstuck ih => exact (ih hend hch).topLevel

/-! ## Through a whole text -/

/-- S-expressions that fill slots of one kind, and a character after them or swallowed. -/
theorem SExpr.StandAfter.push_all {t : Slot} {xs : List (SExpr Location)}
    (hxs : StandAfter source xs c d) (hall : ∀ x ∈ xs, t.Accepts x) (hch : ch ∈ marks) :
    StandAfter source xs (c.before [ch]) (d.before [ch]) ∨
      ∃ ys e, ys.length = xs.length ∧ StandAfter source ys (c.before [ch]) e ∧
        (∀ y ∈ ys, t.Accepts y) ∧ e.rest = [] := by
  by_cases hd : d.rest = []
  · rcases hxs.push hd hch with hys | ⟨e, he, hys | ⟨ys, x, y, rfl, hxy, hys⟩⟩
    · exact Or.inl hys
    · exact Or.inr ⟨xs, e, rfl, hys, hall, he⟩
    · have hbefore : AcceptAll [] (some t) (ys ++ [x]) := hall
      have hlonger : AcceptAll [] (some t) (ys ++ [y]) := hbefore.lengthened hxy hch
      exact Or.inr ⟨ys ++ [y], e, by simp, hys, hlonger, he⟩
  · exact Or.inl (hxs.extend hd [ch])

/-- With a character that was waited for, a text that broke off is complete or breaks off at its new
end. -/
theorem Trail.push {e : EntryPoint} (ht : Trail source e c h hints) (hend : h.rest = [])
    (hch : ch ∈ hints) : e.Complete source (c.before [ch]) ∨
      ∃ d hints, Trail source e (c.before [ch]) d hints ∧ d.rest = [] := by
  cases ht with
  | @header u s r ch' _ hs hr =>
      obtain rfl := List.mem_singleton.mp hch
      obtain rfl : r = [] := (Cursor.rest_skip hr).symm.trans hend
      rw [List.append_nil] at hr
      have hrest : (c.before [ch]).rest = (u ++ [ch]) ++ [] := by
        rw [Cursor.before_rest, hr, List.append_nil]
      cases s with
      | nil =>
          rw [← hs] at hrest
          exact Or.inl (.program hrest (.of_gap (.refl _)) (List.forall_mem_nil _)
            (Cursor.rest_skip hrest))
      | cons ch' s =>
          have hs' : Grammar.header = (u ++ [ch]) ++ ch' :: s := by rw [hs, List.append_assoc]; rfl
          exact Or.inr ⟨_, _, .header hs' hrest, Cursor.rest_skip hrest⟩
  | @form r xs _ d _ _ hr hxs hall hstuck =>
      have hmark := hstuck.hints_subset ch hch
      have hr' : (c.before [ch]).rest = Grammar.header ++ (r ++ [ch]) := by
        rw [Cursor.before_rest, hr, List.append_assoc]
      have hskip := Cursor.before_skip hr [ch]
      rcases hxs.push_all hall hmark with hlands | ⟨ys, e, -, hys, hall', he⟩
      · rw [hskip] at hlands
        rcases hstuck.push hend hch with ⟨x, m, e, hx, hgap, he, haccepts⟩ | ⟨e, hints, hstuck', he⟩
        · refine Or.inl (.program hr' (hlands.concat hx hgap) (fun y hy => ?_) he)
          rcases List.mem_append.mp hy with hy | hy
          · exact hall y hy
          · rw [List.mem_singleton.mp hy]
            exact haccepts
        · exact Or.inr ⟨e, hints, .form hr' hlands hall hstuck', he⟩
      · exact Or.inl (.program hr' (hskip ▸ hys) hall' he)
  | @expr allowTrailing _ d _ _ hgap hstuck =>
      have hmark := hstuck.hints_subset ch hch
      have hnone : SExpr.StandAfter source [] c d := .of_gap hgap
      rcases hnone.push_all (t := .expr) (List.forall_mem_nil _) hmark with
        hlands | ⟨ys, e, hlen, hys, -, he⟩
      · rcases hstuck.push hend hch with ⟨x, m, e, hx, hgap', he, haccepts⟩ | ⟨e, hints, hstuck', he⟩
        · exact Or.inl (.expression (hlands.concat hx hgap') haccepts he)
        · obtain ⟨c₁, hgap', hc₁⟩ := hlands
          obtain rfl : d.before [ch] = c₁ := hc₁
          exact Or.inr ⟨e, hints, .expr hgap' hstuck', he⟩
      · obtain rfl := List.eq_nil_of_length_eq_zero hlen
        obtain ⟨c₁, hgap', hc₁⟩ := hys
        obtain rfl : e = c₁ := hc₁
        exact Or.inr ⟨e, _, .expr hgap' (.start .expr e), he⟩
  | leftover hx haccepts => cases hch

end PieSyntax
