import PieSyntax.Proofs.Extend
import PieSyntax.Proofs.Trail

/-!
# Completing a text

At the end of a trail something can be written that goes on from there: what is missing in its slot,
the rest of a word, and then, list by list, the items that must still come and the parenthesis.
Everything that is written ends with a newline, so it is separated from what comes after it.

Where a word or a comment may still go on, a newline comes first.

## Main results

* `Stuck.exists_filling` — what is missing in a slot can be written.
* `EntryPoint.exists_completion` — the text before a reported error can be completed.
-/

namespace PieSyntax

variable {ceiling : Nat}

/-! ## What fills a slot -/

/-- A text that fills the slot. -/
def Slot.filler : Slot → Text
  | .expr => ['x', '\n']
  | .name => ['x', '\n']
  | .names => ['(', 'x', '\n', ')', '\n']
  | .pair => ['(', 'x', '\n', 'x', '\n', ')', '\n']
  | .pairs => ['(', '(', 'x', '\n', 'x', '\n', ')', '\n', ')', '\n']
  | .topLevel => ['x', '\n']

variable {source : String} {s : Slot} {c d h : Cursor} {v : Text}

theorem dropped_newline (v : Text) : Dropped .trivia ('\n' :: v) v := .white (by decide) (.none v)

/-- The row of slots is filled by texts that fill its slots. -/
theorem exists_standAll_row {row : List Slot} {text : Slot → Text}
    (htext : ∀ t ∈ row, ∀ (c : Cursor) (v : Text), c.rest = text t ++ v → t.FilledAt source c v)
    (hc : c.rest = row.flatMap text ++ v) :
    ∃ xs d, SExpr.StandAll source xs c d ∧ d.rest = v ∧ AcceptAll row none xs := by
  induction row generalizing c with
  | nil => exact ⟨[], c, rfl, hc, rfl⟩
  | cons t row ih =>
      rw [List.flatMap_cons, List.append_assoc] at hc
      obtain ⟨x, m, c₁, hx, hgap, hc₁, haccepts⟩ := htext t List.mem_cons_self c _ hc
      obtain ⟨xs, d, hxs, hd, hrow⟩ := ih (fun t ht => htext t (List.mem_cons_of_mem _ ht)) hc₁
      exact ⟨x :: xs, d, ⟨m, c₁, hx, hgap, hxs⟩, hd, x, xs, rfl, haccepts, hrow⟩

/-- A list without a keyword is filled by texts that fill its slots. -/
theorem filledAt_row {σ : Shape} (text : Slot → Text) (hopens : s.Opens [] σ)
    (htext : ∀ t ∈ σ.first, ∀ (c : Cursor) (v : Text), c.rest = text t ++ v → t.FilledAt source c v)
    (hc : c.rest = '(' :: (σ.first.flatMap text ++ ')' :: '\n' :: v)) : s.FilledAt source c v := by
  obtain ⟨xs, d, hxs, hd, hrow⟩ := exists_standAll_row htext (Cursor.rest_skip (u := ['(']) hc)
  exact filledAt_list hopens ⟨_, hc⟩ ⟨_, Cursor.Gap.refl _, hxs⟩ (hrow.of_row σ.more) hd
    (dropped_newline v)

/-- A filler fills its slot. -/
theorem filledAt_filler (s : Slot) (hc : c.rest = s.filler ++ v) : s.FilledAt source c v := by
  have hname : ∀ {s : Slot} {c : Cursor} {v : Text}, s = .expr ∨ s = .name →
      c.rest = ['x', '\n'] ++ v → s.FilledAt source c v :=
    fun hs hc => filledAt_word hs (show IsWord ['x'] by decide) (by decide) hc
      (boundary_newline _) (dropped_newline _)
  have hpair : ∀ {c : Cursor} {v : Text}, c.rest = Slot.pair.filler ++ v →
      Slot.pair.FilledAt source c v := by
    intro c v hc
    refine filledAt_row Slot.filler .pair (fun t ht c v hc => ?_) hc
    obtain rfl | rfl : t = .name ∨ t = .expr := by simpa [Shape.pair] using ht
    · exact hname (Or.inr rfl) hc
    · exact hname (Or.inl rfl) hc
  cases s with
  | expr => exact hname (Or.inl rfl) hc
  | name => exact hname (Or.inr rfl) hc
  | topLevel => exact (hname (Or.inl rfl) hc).topLevel
  | pair => exact hpair hc
  | names =>
      refine filledAt_row Slot.filler .names (fun t ht c v hc => ?_) hc
      obtain rfl : t = .name := by simpa [Shape.names] using ht
      exact hname (Or.inr rfl) hc
  | pairs =>
      refine filledAt_row Slot.filler .pairs (fun t ht c v hc => ?_) hc
      obtain rfl : t = .pair := by simpa [Shape.pairs] using ht
      exact hpair hc

/-! ## What is missing at the end of a trail -/

/-- The dots with which a word may begin can be gone on from. -/
theorem Dots.exists_word {u : Text} (hu : Dots u) :
    ∃ t, IsWord (u ++ t) ∧ Grammar.isFreeName (u ++ t) = true := by
  rcases hu with rfl | rfl | rfl
  · exact ⟨['x'], by decide, by decide⟩
  · exact ⟨['.', '.'], by decide, by decide⟩
  · exact ⟨['.'], by decide, by decide⟩

/-- The last items of a list, and its parenthesis. -/
theorem filledAt_rest {lead xs : List (SExpr Location)} {σ : Shape} {row rest : List Slot}
    (hopens : s.Opens lead σ) (hr : ∃ r, c.rest = '(' :: r)
    (hxs : SExpr.StandAfter source (lead ++ xs) (c.skip ['(']) d) (hrow : AcceptAll row none xs)
    (hfirst : σ.first = row ++ rest)
    (hd : d.rest = rest.flatMap Slot.filler ++ ')' :: '\n' :: v) : s.FilledAt source c v := by
  obtain ⟨ys, e, hys, he, hrest⟩ := exists_standAll_row (fun t _ c v => filledAt_filler t) hd
  obtain ⟨c₁, hgap, hxs⟩ := hxs
  have hall : SExpr.StandAll source (lead ++ (xs ++ ys)) c₁ e := by
    rw [← List.append_assoc]
    exact hxs.append hys
  refine filledAt_list hopens hr ⟨c₁, hgap, hall⟩ ?_ he (dropped_newline v)
  rw [hfirst]
  exact hrow.append (hrest.of_row σ.more)

/-- What is missing in a slot can be written at the end of its trail. -/
theorem Stuck.exists_filling {hints : List Char} (hstuck : Stuck source s c h hints)
    (hend : h.rest = []) : ∃ t, ∀ v, s.FilledAt source (c.before (t ++ v)) v := by
  induction hstuck with
  | start s c =>
      refine ⟨s.filler, fun v => filledAt_filler s ?_⟩
      rw [Cursor.before_rest, hend, List.nil_append]
  | @word s c u r hs hu hr =>
      obtain ⟨t, hword, hfree⟩ := hu.exists_word
      obtain rfl : r = [] := (Cursor.rest_skip hr).symm.trans hend
      refine ⟨t ++ ['\n'], fun v => filledAt_word (w := '\n' :: v) hs hword hfree ?_
        (boundary_newline v) (dropped_newline v)⟩
      rw [Cursor.before_rest, hr]
      simp
  | @quoted c u r hu hr =>
      obtain ⟨t, hword, -⟩ := hu.exists_word
      obtain rfl : r = [] := (Cursor.rest_skip (u := '\'' :: u) hr).symm.trans hend
      refine ⟨t ++ ['\n'], fun v => filledAt_quoted (w := '\n' :: v) hword ?_
        (boundary_newline v) (dropped_newline v)⟩
      rw [Cursor.before_rest, hr]
      simp
  | @item s t lead xs σ row rest c d h hints hopens hr hxs hrow hfirst hstuck ih =>
      by_cases hd : d.rest = []
      · -- The last item may still go on, so a newline comes first.
        refine ⟨'\n' :: ((t :: rest).flatMap Slot.filler ++ [')', '\n']), fun v => ?_⟩
        obtain ⟨hskip, hr'⟩ := Cursor.before_open
          ('\n' :: ((t :: rest).flatMap Slot.filler ++ [')', '\n']) ++ v) hr
        obtain ⟨e, hys, he⟩ := hxs.newline hd ((t :: rest).flatMap Slot.filler ++ [')', '\n'] ++ v)
        refine filledAt_rest hopens hr' (d := e) (hskip ▸ hys) hrow hfirst ?_
        rw [he]
        simp
      · obtain ⟨u, hu⟩ := ih hend
        refine ⟨u ++ (rest.flatMap Slot.filler ++ [')', '\n']), fun v => ?_⟩
        obtain ⟨y, m, e, hy, hgap, he, haccepts⟩ :=
          hu (rest.flatMap Slot.filler ++ ')' :: '\n' :: v)
        obtain ⟨hskip, hr'⟩ := Cursor.before_open
          (u ++ (rest.flatMap Slot.filler ++ ')' :: '\n' :: v)) hr
        have hys := (hxs.extend hd (u ++ (rest.flatMap Slot.filler ++ ')' :: '\n' :: v))).concat
          hy hgap
        have htext : u ++ (rest.flatMap Slot.filler ++ [')', '\n']) ++ v =
            u ++ (rest.flatMap Slot.filler ++ ')' :: '\n' :: v) := by simp
        rw [htext]
        rw [hskip, List.append_assoc] at hys
        refine filledAt_rest hopens hr' hys (hrow.concat haccepts) ?_ he
        rw [hfirst, List.append_assoc]
        rfl
  | @close s lead xs σ c h hopens hr hxs hall =>
      refine ⟨['\n', ')', '\n'], fun v => ?_⟩
      obtain ⟨hskip, hr'⟩ := Cursor.before_open (['\n', ')', '\n'] ++ v) hr
      obtain ⟨e, hys, he⟩ := hxs.newline hend (')' :: '\n' :: v)
      exact filledAt_list hopens hr' (hskip ▸ hys) hall he (dropped_newline v)
  | form hstuck ih =>
      obtain ⟨t, ht⟩ := ih hend
      exact ⟨t, fun v => (ht v).topLevel⟩

/-- The same after other S-expressions. -/
theorem Stuck.exists_filling_after {hints : List Char} {xs : List (SExpr Location)} {c₀ : Cursor}
    (hstuck : Stuck source s c h hints) (hend : h.rest = [])
    (hxs : SExpr.StandAfter source xs c₀ c) :
    ∃ t x d, SExpr.StandAfter source (xs ++ [x]) (c₀.before t) d ∧ s.Accepts x ∧ d.rest = [] := by
  by_cases hc : c.rest = []
  · obtain ⟨e, hys, he⟩ := hxs.newline hc s.filler
    obtain ⟨x, m, d, hx, hgap, hd, haccepts⟩ :=
      show s.FilledAt source e [] from filledAt_filler s (by rw [he, List.append_nil])
    exact ⟨_, x, d, hys.concat hx hgap, haccepts, hd⟩
  · obtain ⟨t, ht⟩ := hstuck.exists_filling hend
    obtain ⟨x, m, d, hx, hgap, hd, haccepts⟩ := ht []
    rw [List.append_nil] at hx
    exact ⟨t, x, d, (hxs.extend hc t).concat hx hgap, haccepts, hd⟩

/-! ## Whole texts -/

/-- A text at whose end a trail ends can be completed. -/
theorem Trail.exists_complete {e : EntryPoint} {hints : List Char}
    (ht : Trail source e c h hints) (hend : h.rest = []) : ∃ t, e.Complete source (c.before t) := by
  cases ht with
  | @header u s r ch _ hs hr =>
      obtain rfl : r = [] := (Cursor.rest_skip hr).symm.trans hend
      have hc : (c.before (ch :: s)).rest = Grammar.header ++ [] := by
        rw [Cursor.before_rest, hr, hs]
        simp
      exact ⟨ch :: s, .program hc (.of_gap (.refl _)) (List.forall_mem_nil _)
        (Cursor.rest_skip hc)⟩
  | @form r xs _ d _ _ hr hxs hall hstuck =>
      obtain ⟨t, x, e, hys, haccepts, he⟩ := hstuck.exists_filling_after hend hxs
      rw [Cursor.before_skip hr] at hys
      refine ⟨t, .program (r := r ++ t) (by rw [Cursor.before_rest, hr, List.append_assoc]) hys
        (fun y hy => ?_) he⟩
      rcases List.mem_append.mp hy with hy | hy
      · exact hall y hy
      · rw [List.mem_singleton.mp hy]
        exact haccepts
  | @expr allowTrailing _ d _ _ hgap hstuck =>
      obtain ⟨t, x, e, hys, haccepts, he⟩ :=
        hstuck.exists_filling_after hend (.of_gap hgap)
      exact ⟨t, .expression hys haccepts he⟩
  | leftover hx haccepts => exact ⟨[], .expression (by rw [Cursor.before_nil]; exact hx) haccepts hend⟩

/-- The text before a reported error can be completed: there is a text that may come after it such
that the whole is accepted. -/
theorem EntryPoint.exists_completion (e : EntryPoint) {source : String} {s : Text} {r : Report}
    (h : e.read source s ceiling = .error (.report r)) (hdetail : r.detail ≠ some tooDeepMessage) :
    ∃ o t, OffsetOf s r.failure.pos o ∧
      (BelowCeiling (e.read source (s.take o ++ t) ceiling) →
        ∃ v, e.read source (s.take o ++ t) ceiling = .ok v) ∧
      ∃ v d n, ∀ k ≥ n, Grammar.rules.run k source e.parser (.start (s.take o ++ t)) = .ok v d := by
  obtain ⟨o, d, hints, ho, htrail, hd, -⟩ := exists_trail_of_read h hdetail
  obtain ⟨t, ht⟩ := htrail.exists_complete hd
  have hcomplete : e.Complete source (.start (s.take o ++ t)) := ht
  obtain ⟨v, d', hrun⟩ := hcomplete.run
  exact ⟨o, t, ho, hcomplete.read, v, d', (s.take o ++ t).length + 1,
    fun k hk => hrun k (Nat.lt_of_succ_le hk)⟩

/-- A program that breaks off in a comment within a claim. -/
def brokenOffProgram : Text := "#lang pie\n(claim f ; the type".toList

/-- What was written of the claim can be gone on from. -/
theorem exists_completion_brokenOffProgram :
    ∃ r o t, parseSource "claim.pie" brokenOffProgram = .error (.report r) ∧
      OffsetOf brokenOffProgram r.failure.pos o ∧ ∃ v d n, ∀ k ≥ n,
        Grammar.rules.run k "claim.pie" Grammar.program (.start (brokenOffProgram.take o ++ t)) =
          .ok v d := by
  obtain ⟨hbelow, r, hr⟩ := exists_eq_report_of_isPlainReport
    (o := parseSource "claim.pie" brokenOffProgram) (by decide +kernel)
  obtain ⟨o, t, ho, -, hrun⟩ := EntryPoint.exists_completion .program hr (hbelow r hr)
  exact ⟨r, o, t, hr, ho, hrun⟩

end PieSyntax
