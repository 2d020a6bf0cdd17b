import PieSyntax.Proofs.OneMore
import PieSyntax.Proofs.Rejected

/-!
# The characters that an error names

Along a trail to the end of a text the parser fails at that end.  A report names characters that were
waited for at the end of a trail; when the text before it goes on with one of them, that is the end of
another trail, one character further on, or the text is complete.

## Main results

* `Stuck.breaks` — a slot whose filling breaks off at the end of the text is rejected there.
* `Trail.complete_or_breaks` — so is a whole text.
* `EntryPoint.literal_goes_on` — every literal that an error names lets the parse go on.
-/

namespace PieSyntax

variable {ceiling : Nat}

namespace Stuck

variable {source : String} {s : Slot} {c h : Cursor} {hints : List Char}

/-- What breaks off at the end of a text does not start with trivia. -/
theorem solid (hstuck : Stuck source s c h hints) (hend : h.rest = []) : Solid c.rest := by
  induction hstuck with
  | start s c => exact solid_of_nil hend
  | word hs hu hr =>
      have hnil := (Cursor.rest_skip hr).symm.trans hend
      rw [hr, hnil, List.append_nil]
      rcases hu with rfl | rfl | rfl <;> decide
  | quoted hu hr =>
      rw [hr]
      exact solid_cons (by decide) _
  | item hopens hr hxs hrow hfirst hstuck ih =>
      obtain ⟨r, hr⟩ := hr
      rw [hr]
      exact solid_cons (by decide) _
  | close hopens hr hxs hall =>
      obtain ⟨r, hr⟩ := hr
      rw [hr]
      exact solid_cons (by decide) _
  | form hstuck ih => exact ih hend

/-- No word comes where an expression breaks off. -/
theorem wordPrefix_eq_none (hstuck : Stuck source .expr c h hints) (hend : h.rest = []) :
    wordPrefix c.rest = none := by
  have hother : ∀ {ch : Char} {r : Text}, c.rest = ch :: r → isWordStart ch = false →
      wordPrefix c.rest = none := by
    intro ch r hr hch
    refine wordPrefix_eq_none_of_head fun x hx => ?_
    rw [hr] at hx
    cases hx
    exact hch
  cases hstuck with
  | start =>
      rw [hend]
      decide
  | word hs hu hr =>
      have hnil := (Cursor.rest_skip hr).symm.trans hend
      rw [hr, hnil, List.append_nil]
      exact Grammar.wordPrefix_of_dots hu
  | quoted hu hr => exact hother hr (by decide)
  | item hopens hr =>
      obtain ⟨r, hr⟩ := hr
      exact hother hr (by decide)
  | close hopens hr =>
      obtain ⟨r, hr⟩ := hr
      exact hother hr (by decide)

end Stuck

/-- A word that is an expression is no keyword of a list. -/
theorem Slot.Accepts.lookup_eq_none {loc : Location} {name : Text}
    (h : Slot.expr.Accepts (.word loc name)) :
    headTable.lookup name = none ∧ commandTable.lookup name = none := by
  obtain ⟨e, he⟩ := h
  exact head?_eq_none_of_elaborate he

theorem lookup_command_of_head {name : Text} {head : Head} (h : headTable.lookup name = some head) :
    commandTable.lookup name = none := by
  have hall : ∀ p ∈ headTable, commandTable.lookup p.1 = none := by decide
  exact hall _ (mem_of_lookup h)

namespace Grammar

open PieSyntax.Parser

variable {source : String} {k : Nat} {c c₁ c₂ d e : Cursor}

/-! ## The first word of a list -/

/-- A table of keywords rejects the first of some items, or what comes in place of them. -/
theorem declines_keywordTable_first {β : Type} {table : List (Text × β)}
    {xs : List (SExpr Location)} (hxs : SExpr.StandAll source xs c d) (hd : Solid d.rest)
    (hnil : xs = [] → wordPrefix c.rest = none)
    (hcons : ∀ loc name ys, xs = .word loc name :: ys → table.lookup name = none) :
    Declines (rules.call source k) source (.empty True) (keywordTable skip table) c := by
  cases xs with
  | nil =>
      refine Declines.keywordTable fun v hv => ?_
      rw [show v = [] from hv, List.append_nil]
      exact hnil rfl
  | cons x xs =>
      obtain ⟨m, c₁, hx, hgap, hxs⟩ := hxs
      exact declines_keywordTable_of_stands hx (closed_of_empty x m)
        (fun loc name hword => hcons loc name xs (by rw [hword]))
        (returns_skip_of_gap hgap (hxs.solid hd))

/-- The first item is an expression, or no word comes in place of it. -/
def Applied (d : Cursor) (xs : List (SExpr Location)) : Prop :=
  (xs = [] ∧ wordPrefix d.rest = none) ∨ ∃ x ys, xs = x :: ys ∧ Slot.expr.Accepts x

theorem applied_of_item {t : Slot} {σ : Shape} {row rest : List Slot} {xs : List (SExpr Location)}
    {h : Cursor} {hints : List Char} (hopens : Slot.expr.Opens [] σ) (hrow : AcceptAll row none xs)
    (hfirst : σ.first = row ++ t :: rest) (hstuck : Stuck source t d h hints)
    (hend : h.rest = []) : Applied d xs := by
  cases hopens with
  | application =>
      cases row with
      | nil =>
          obtain rfl : .expr = t := (List.cons.inj hfirst).1
          exact Or.inl ⟨hrow, hstuck.wordPrefix_eq_none hend⟩
      | cons s row =>
          obtain rfl : .expr = s := (List.cons.inj hfirst).1
          obtain ⟨x, ys, rfl, haccepts, -⟩ := hrow
          exact Or.inr ⟨x, ys, rfl, haccepts⟩

theorem applied_of_all {σ : Shape} {xs : List (SExpr Location)} (hopens : Slot.expr.Opens [] σ)
    (hall : AcceptAll σ.first σ.more xs) : Applied d xs := by
  cases hopens with
  | application =>
      obtain ⟨x, ys, rfl, haccepts, -⟩ := hall
      exact Or.inr ⟨x, ys, rfl, haccepts⟩

/-- In place of what is applied stands no keyword. -/
theorem Applied.declines {β : Type} {table : List (Text × β)} {xs : List (SExpr Location)}
    (happlied : Applied d xs) (hxs : SExpr.StandAll source xs c d) (hd : Solid d.rest)
    (htable : ∀ loc name, Slot.expr.Accepts (.word loc name) → table.lookup name = none) :
    Declines (rules.call source k) source (.empty True) (keywordTable skip table) c := by
  rcases happlied with ⟨rfl, hword⟩ | ⟨x, ys, rfl, haccepts⟩
  · obtain rfl : d = c := hxs
    have hnone : SExpr.StandAll source [] d d := rfl
    exact declines_keywordTable_first hnone hd (fun _ => hword) fun _ _ _ hnil => by cases hnil
  · refine declines_keywordTable_first hxs hd (fun hnil => by cases hnil) fun loc name zs hcons => ?_
    obtain ⟨rfl, -⟩ := List.cons.inj hcons
    exact htable loc name haccepts

/-- A list that starts with the keyword of a command is no expression. -/
theorem declines_expr_of_command {name : Text} {command : Command} {r : Text}
    (hr : c.rest = '(' :: r)
    (hskip : Returns (rules.call source k) source (.empty True) skip (c.skip ['(']) () c₁)
    (hname : wordPrefix c₁.rest = some name) (hlookup : commandTable.lookup name = some command) :
    Declines (rules.call source k) source (.empty True) expr c := by
  obtain ⟨hreserved, hconstant, hhead⟩ := reserved_of_lookup_command hlookup
  have hcompound : Declines (rules.call source k) source (.empty True) compound c :=
    runsAs_compound.declines (Declines.parens_inside hr hskip (Declines.orElse
      (Declines.bind (declines_keywordTable_of_lookup hname hhead))
      (declines_application_reserved hname hreserved hconstant)))
  exact declines_expr_open hr hcompound

/-- A list breaks at the end of the text if what is asked for after its keyword gets there. -/
theorem breaks_list {s : Slot} {lead : List (SExpr Location)} {σ : Shape} {r : Text}
    (hopens : s.Opens lead σ) (hr : c.rest = '(' :: r) (hgap : (c.skip ['(']).Gap c₁)
    (hlead : SExpr.StandAll source lead c₁ c₂) (hsolid : Solid c₂.rest) (hreach : c₂.Reaches e)
    (he : e.rest = [])
    (hfirst : s = .expr → lead = [] → Declines (rules.call source k) source (.empty True)
      (keywordTable skip headTable) c₁)
    (hinside : Exhausts (rules.call source k) source (inside σ) c₂ e) :
    Breaks (rules.call source k) source (direct s) c e.pos := by
  have hcall := rules.call_reaches source k
  have hskip : Returns (rules.call source k) source (.empty True) skip (c.skip ['(']) () c₁ :=
    returns_skip_of_gap hgap (hlead.solid hsolid)
  have hreach₁ : c₁.Reaches e := hlead.reaches.trans hreach
  have hopened : c.Reaches e :=
    ((Cursor.reaches_skip (u := ['(']) hr).trans hgap.reaches).trans hreach₁
  have hbracket : ∀ {p : PieParser Unit},
      Exhausts (rules.call source k) source p c₁ e →
        Breaks (rules.call source k) source (parens skip p) c e.pos :=
    fun h => Exhausts.parens hcall hr hskip h he
  cases hopens with
  | application =>
      obtain rfl : c₂ = c₁ := hlead
      have hdispatch : Declines (rules.call source k) source (.empty True)
          ((keywordTable skip headTable).bind fun entry => inside entry.value.shape) c₂ :=
        Declines.bind (hfirst rfl rfl)
      have hcompound : Breaks (rules.call source k) source compound c e.pos :=
        runsAs_compound.breaks (hbracket
          (Exhausts.orElse_right hdispatch (hdispatch.breaksBy hcall hreach he) hinside))
      exact Breaks.map _ (breaks_expr_open hr hopened he hcompound)
  | @head loc name h hlookup =>
      obtain ⟨m, c₃, hword, hafter, hc₃⟩ := hlead
      obtain rfl : c₂ = c₃ := hc₃
      obtain ⟨hreserved, hconstant⟩ := reserved_of_lookup_head hlookup
      have hkeyword := returns_keywordTable_of_stands (k := k) hword (closed_of_empty _ m) hlookup
        (returns_skip_of_gap hafter hsolid)
      have hdispatch : Exhausts (rules.call source k) source
          ((keywordTable skip headTable).bind fun entry => inside entry.value.shape) c₁ e :=
        Exhausts.bind_right hkeyword hinside
      have happ := (declines_application_reserved (k := k) hword.1 hreserved
        hconstant).breaksBy hcall hreach₁ he
      exact Breaks.map _ (breaks_expr_open hr hopened he
        (runsAs_compound.breaks (hbracket (Exhausts.orElse hdispatch happ))))
  | names =>
      obtain rfl : c₂ = c₁ := hlead
      exact runsAs_binders.breaks (hbracket hinside)
  | pair =>
      obtain rfl : c₂ = c₁ := hlead
      exact runsAs_pair.breaks (hbracket hinside)
  | pairs =>
      obtain rfl : c₂ = c₁ := hlead
      exact runsAs_typedBinders.breaks (hbracket hinside)
  | @command loc name command hlookup =>
      obtain ⟨m, c₃, hword, hafter, hc₃⟩ := hlead
      obtain rfl : c₂ = c₃ := hc₃
      have hkeyword := returns_keywordTable_of_stands (k := k) hword (closed_of_empty _ m) hlookup
        (returns_skip_of_gap hafter hsolid)
      have hcommand : Exhausts (rules.call source k) source commandInside c₁ e :=
        Exhausts.bind_right hkeyword hinside
      have hexpr := declines_expr_of_command hr hskip hword.1 hlookup
      exact Breaks.map _ (Breaks.orElse (runsAs_command.breaks (hbracket hcommand))
        ((Declines.map _ hexpr).breaksBy hcall hopened he))

/-- Where a list that is an expression breaks off, no command stands. -/
theorem declines_command_of_list {lead xs : List (SExpr Location)} {σ : Shape}
    (hopens : Slot.expr.Opens lead σ) (hr : ∃ r, c.rest = '(' :: r)
    (hxs : SExpr.StandAfter source (lead ++ xs) (c.skip ['(']) d) (hd : Solid d.rest)
    (happlied : lead = [] → Applied d xs) :
    Declines (rules.call source k) source (.empty True)
      (parensLocated skip (dispatch commandTable commandBody)) c := by
  obtain ⟨r, hr⟩ := hr
  obtain ⟨c₁, hgap, hxs⟩ := hxs
  refine Declines.parensLocated_inside hr (returns_skip_of_gap hgap (hxs.solid hd))
    (Declines.bind ?_)
  cases hopens with
  | application =>
      exact (happlied rfl).declines hxs hd fun _ _ haccepts => haccepts.lookup_eq_none.2
  | head hlookup =>
      refine declines_keywordTable_first hxs hd (fun hnil => by cases hnil)
        fun loc name ys hcons => ?_
      obtain ⟨hword, -⟩ := List.cons.inj hcons
      obtain ⟨-, rfl⟩ := SExpr.word.inj hword
      exact lookup_command_of_head hlookup

/-- Where an expression breaks off, no command stands. -/
theorem declines_command_of_stuck {h : Cursor} {hints : List Char}
    (hstuck : Stuck source .expr c h hints) (hend : h.rest = []) :
    Declines (rules.call source k) source (.empty True)
      (parensLocated skip (dispatch commandTable commandBody)) c := by
  cases hstuck with
  | start => exact declines_command_of_head (ne_head (head_of_nil hend))
  | @word _ _ u r hs hu hr =>
      refine declines_command_of_head fun v hv hhead => ?_
      have hnil := (Cursor.rest_skip hr).symm.trans hend
      rw [hr, hnil, show v = [] from hv, List.append_nil, List.append_nil] at hhead
      have hdot := eq_dot_of_dots hu '(' (List.mem_of_mem_head? hhead)
      revert hdot
      decide
  | quoted hu hr => exact declines_command_of_head (ne_head (head_of_cons hr (by decide)))
  | item hopens hr hxs hrow hfirst hstuck =>
      refine declines_command_of_list hopens hr hxs (hstuck.solid hend) fun hlead => ?_
      subst hlead
      exact applied_of_item hopens hrow hfirst hstuck hend
  | close hopens hr hxs hall =>
      refine declines_command_of_list hopens hr hxs (solid_of_nil hend) fun hlead => ?_
      subst hlead
      exact applied_of_all hopens hall

end Grammar

/-! ## The end of a trail -/

open Grammar PieSyntax.Parser in
/-- A slot whose filling breaks off at the end of the text is rejected there. -/
theorem Stuck.breaks {source : String} {s : Slot} {c h : Cursor} {hints : List Char}
    (hstuck : Stuck source s c h hints) (hend : h.rest = []) :
    ∀ k, Breaks (rules.call source k) source (direct s) c h.pos := by
  have hlist : ∀ {s : Slot} {lead xs : List (SExpr Location)} {σ : Shape} {c d h : Cursor},
      s.Opens lead σ → (∃ r, c.rest = '(' :: r) →
        SExpr.StandAfter source (lead ++ xs) (c.skip ['(']) d → Solid d.rest → d.Reaches h →
          h.rest = [] → (s = .expr → lead = [] → Applied d xs) → ∀ k,
            (∀ c₂, SExpr.StandAll source xs c₂ d →
              Exhausts (rules.call source k) source (inside σ) c₂ h) →
                Breaks (rules.call source k) source (direct s) c h.pos := by
    rintro s lead xs σ c d h hopens ⟨r, hr⟩ ⟨c₁, hgap, hall⟩ hsolid hreach hend happlied k hinside
    obtain ⟨c₂, hlead, hxs⟩ := hall.split
    refine breaks_list hopens hr hgap hlead (hxs.solid hsolid) (hxs.reaches.trans hreach) hend
      (fun hs hnil => ?_) (hinside c₂ hxs)
    subst hnil
    obtain rfl : c₂ = c₁ := hlead
    exact (happlied hs rfl).declines hxs hsolid fun _ _ haccepts => haccepts.lookup_eq_none.1
  induction hstuck with
  | start s c =>
      exact fun k => Declines.breaks (rules.call_reaches source k) (declines_direct_nil s hend) hend
  | @word s c u r hs hu hr =>
      have hnil := (Cursor.rest_skip hr).symm.trans hend
      rw [hnil, List.append_nil] at hr
      rcases hs with rfl | rfl
      · exact fun k => Breaks.map _ (breaks_expr_word hu hr)
      · exact fun k => Breaks.map _ (breaks_varName hu hr)
  | @quoted c u r hu hr =>
      have hnil := (Cursor.rest_skip (u := '\'' :: u) hr).symm.trans hend
      rw [hnil, List.append_nil] at hr
      exact fun k => Breaks.map _ (breaks_expr_quoted hu hr)
  | @item s t lead xs σ row rest c d h hints hopens hr hxs hrow hfirst hstuck ih =>
      have hsolid := hstuck.solid hend
      refine fun k => hlist hopens hr hxs hsolid hstuck.reaches hend (fun hs hlead => ?_) k
        fun c₂ hys => Or.inl ?_
      · subst hs hlead
        exact applied_of_item hopens hrow hfirst hstuck hend
      · rw [inside, hfirst]
        exact breaks_items hys hrow hsolid (breaks_slot (ih hend) k)
  | @close s lead xs σ c h hopens hr hxs hall =>
      refine fun k => hlist hopens hr hxs (solid_of_nil hend) (Cursor.Reaches.refl h) hend
        (fun hs hlead => ?_) k fun c₂ hys => Or.inr ⟨(), returns_items hys hall hend⟩
      subst hs hlead
      exact applied_of_all hopens hall
  | @form c h hints hstuck ih =>
      intro k
      have hexpr : Breaks (rules.call source k) source expr c h.pos :=
        (runsAs_slot expr).breaks (ih hend k)
      exact Breaks.map _ (Breaks.orElse_right
        ((declines_command_of_stuck hstuck hend).breaksBy (rules.call_reaches source k)
          hstuck.reaches hend) (Breaks.map _ hexpr))

namespace Grammar

open PieSyntax.Parser

variable {source : String} {k : Nat} {c d h : Cursor}

/-- The first line fails where it is cut off. -/
theorem breaks_header {u s : Text} {ch : Char} (hs : header = u ++ ch :: s) (hc : c.rest = u) :
    Breaks (rules.call source k) source (.text header : PieParser Text) c (c.skip u).pos := by
  have hnot : ¬ header <+: c.rest := by
    rintro ⟨r, hr⟩
    have hlen := congrArg List.length hr
    rw [hc, hs] at hlen
    simp at hlen
  obtain ⟨f, hf⟩ := eval_text_of_not_isPrefix (rules.call source k) source hnot
  obtain ⟨u', ch', s', r, hs', hr, hne, hat⟩ := eval_text_fail hf
  have hnil : r = [] := by
    rw [hc] at hr
    rw [hs, hr, List.append_assoc] at hs'
    cases r with
    | nil => rfl
    | cons x r =>
        obtain ⟨rfl, -⟩ := List.cons.inj (List.append_cancel_left hs')
        exact absurd rfl hne
  rw [hnil, List.append_nil, hc] at hr
  exact Or.inr ⟨f, hf, by rw [hr]; exact hat.pos⟩

/-- The forms before one that breaks are read. -/
theorem breaks_forms {xs : List (SExpr Location)} (hxs : SExpr.StandAll source xs c d)
    (hall : ∀ x ∈ xs, Slot.topLevel.Accepts x) (hd : d.rest ≠ []) (hsolid : Solid d.rest)
    (hreach : d.Reaches h) (hend : h.rest = [])
    (hform : Breaks (rules.call source k) source topLevel d h.pos) :
    Breaks (rules.call source k) source (topLevel.manyTill .eof) c h.pos := by
  have hcall := rules.call_reaches source k
  have hstop : ∀ {c : Cursor}, c.rest ≠ [] → c.Reaches h →
      BreaksBy (rules.call source k) source (.eof : PieParser Unit) c h.pos := by
    intro c hc hreach
    refine Declines.breaksBy hcall (Declines.of_eval fun v hv => ?_) hreach hend
    have hnot : ¬ (c.before v).atEnd = true := by
      rw [Cursor.atEnd, Cursor.before_rest, show v = [] from hv, List.append_nil, List.isEmpty_iff]
      exact hc
    exact ⟨_, by rw [Parser.eval, if_neg hnot]; rfl⟩
  induction xs generalizing c with
  | nil =>
      obtain rfl : d = c := hxs
      exact Breaks.manyTill_nil hcall (hstop hd hreach) hform
  | cons x xs ih =>
      have hforms := hxs.reaches.trans hreach
      obtain ⟨m, c₁, hx, hgap, hxs⟩ := hxs
      obtain ⟨t, ht⟩ := hall x List.mem_cons_self
      have hread : Returns (rules.call source k) source (.empty True) topLevel c t c₁ :=
        Reads.close (reads_topLevel skippable hx ht (closed_of_empty x m) (Or.inl trivial))
          (returns_skip_of_gap hgap (hxs.solid hsolid))
      exact Breaks.manyTill_cons hcall (hstop hx.solid.2 hforms) hread
        (offset_ne_of_stands skippable hx hgap)
        (ih hxs fun y hy => hall y (List.mem_cons_of_mem _ hy))

end Grammar

open Grammar PieSyntax.Parser in
/-- A text that breaks off at its end is complete, or rejected there. -/
theorem Trail.complete_or_breaks {source : String} {e : EntryPoint} {c h : Cursor}
    {hints : List Char} (ht : Trail source e c h hints) (hend : h.rest = []) :
    e.Complete source c ∨ ∀ k, Breaks (rules.call source k) source e.parser c h.pos := by
  cases ht with
  | header hs hr =>
      have hnil := (Cursor.rest_skip hr).symm.trans hend
      rw [hnil, List.append_nil] at hr
      exact Or.inr fun k => Breaks.andThen (Breaks.andThen (breaks_header hs hr))
  | @form r xs _ d _ _ hr hxs hall hstuck =>
      by_cases hd : d.rest = []
      · exact Or.inl (.program hr hxs hall hd)
      · obtain ⟨c₁, hgap, hxs⟩ := hxs
        have hsolid := hstuck.solid hend
        refine Or.inr fun k => ?_
        have hform : Breaks (rules.call source k) source topLevel d h.pos :=
          (runsAs_slot topLevel).breaks (hstuck.breaks hend k)
        exact Breaks.andThen_right (Reads.andThen (Returns.text hr)
          (skippable.returns_trivia hgap (clear_of_solid (hxs.solid hsolid)) (Or.inl trivial)))
          (breaks_forms hxs hall hd hsolid hstuck.reaches hend hform)
  | @expr allowTrailing _ d _ _ hgap hstuck =>
      refine Or.inr fun k => ?_
      have hread : Breaks (rules.call source k) source (trivia.andThen Grammar.expr) c h.pos :=
        Breaks.andThen_right
          (skippable.returns_trivia hgap (clear_of_solid (hstuck.solid hend)) (Or.inl trivial))
          ((runsAs_slot Grammar.expr).breaks (hstuck.breaks hend k))
      cases allowTrailing with
      | true => exact hread
      | false => exact Breaks.followedBy hread
  | leftover hx haccepts => exact Or.inl (.expression hx haccepts hend)

/-! ## Literals -/

namespace EntryPoint

variable {e : EntryPoint} {source : String} {s : Text} {q : Position}

/-- A text ends before a longer one does. -/
theorem pos_lt_of_longer {u v : Text} {d d' : Cursor} (hd : (Cursor.start u).Reaches d)
    (hend : d.rest = []) (hd' : (Cursor.start (u ++ v)).Reaches d') (hend' : d'.rest = [])
    (hv : v ≠ []) : d.pos < d'.pos := by
  obtain ⟨w, hw⟩ := hd
  obtain ⟨w', hw'⟩ := hd'
  have hwu : u = w := by simpa [hend, Cursor.start] using hw.rest
  have hwv : u ++ v = w' := by simpa [hend', Cursor.start] using hw'.rest
  rw [hw.pos, hw'.pos, ← hwu, ← hwv, Position.advance_append]
  exact Position.lt_advance _ hv

/-- Every run on the text that has room for it succeeds, or fails after the place. -/
theorem goes_on_of_run
    (h : ∀ k, (∃ v d, e.parser.eval (Grammar.rules.call source k) source (.start s) = .ok v d) ∨
      e.parser.eval (Grammar.rules.call source k) source (.start s) = .interrupted .tooDeep ∨
        ∃ f, e.parser.eval (Grammar.rules.call source k) source (.start s) = .fail f ∧ q < f.pos) :
    (BelowCeiling (e.read source s ceiling) → (∃ v, e.read source s ceiling = .ok v) ∨
      ∃ r, e.read source s ceiling = .error (.report r) ∧ q < r.failure.pos) ∧
    ∃ n, ∀ k ≥ n, (∃ v d, Grammar.rules.run k source e.parser (.start s) = .ok v d) ∨
      ∃ f, Grammar.rules.run k source e.parser (.start s) = .fail f ∧ q < f.pos := by
  constructor
  · intro hbelow
    rcases h ceiling with ⟨v, d, hok⟩ | hdeep | ⟨f, hf, hlt⟩
    · exact Or.inl ⟨v, read_of_ok hok⟩
    · exact absurd hdeep (run_ne_tooDeep hbelow)
    · exact Or.inr ⟨_, read_of_fail hf, hlt⟩
  · refine ⟨s.length + 1, fun k hk => ?_⟩
    rcases h k with hok | hdeep | hfail
    · exact Or.inl hok
    · exact absurd hdeep (e.finishes hk)
    · exact Or.inr hfail

/-- Every literal that an error names is a character that lets the parse go on: when the text before
the error goes on with it, it is accepted or rejected later. -/
theorem literal_goes_on (e : EntryPoint) {source : String} {s : Text} {r : Report}
    {literals descriptions : Std.ExtTreeSet String} {l : String}
    (h : e.read source s ceiling = .error (.report r)) (hdetail : r.detail ≠ some tooDeepMessage)
    (hpayload : r.failure.expectation = .expected literals descriptions) (hl : l ∈ literals) :
    ∃ o ch, OffsetOf s r.failure.pos o ∧ l = String.singleton ch ∧
      (BelowCeiling (e.read source (s.take o ++ [ch]) ceiling) →
        (∃ v, e.read source (s.take o ++ [ch]) ceiling = .ok v) ∨
          ∃ r', e.read source (s.take o ++ [ch]) ceiling = .error (.report r') ∧
            r.failure.pos < r'.failure.pos) ∧
      ∃ n, ∀ k ≥ n,
        (∃ v d, Grammar.rules.run k source e.parser (.start (s.take o ++ [ch])) = .ok v d) ∨
          ∃ f, Grammar.rules.run k source e.parser (.start (s.take o ++ [ch])) = .fail f ∧
            r.failure.pos < f.pos := by
  obtain ⟨o, d, hints, ho, htrail, hd, hat⟩ := exists_trail_of_read h hdetail
  obtain ⟨ch, hch, rfl⟩ := hat.within literals descriptions hpayload l hl
  refine ⟨o, ch, ho, rfl, goes_on_of_run ?_⟩
  have hpush : e.Complete source (.start (s.take o ++ [ch])) ∨ ∃ d' hints',
      Trail source e (.start (s.take o ++ [ch])) d' hints' ∧ d'.rest = [] := htrail.push hd hch
  have hcomplete : e.Complete source (.start (s.take o ++ [ch])) → ∀ k,
      (∃ v d, e.parser.eval (Grammar.rules.call source k) source (.start (s.take o ++ [ch])) =
        .ok v d) ∨
      e.parser.eval (Grammar.rules.call source k) source (.start (s.take o ++ [ch])) =
        .interrupted .tooDeep := by
    intro hcomplete k
    obtain ⟨v, d, hrun⟩ := hcomplete.eval
    exact (hrun k).symm.imp_left fun hok => ⟨v, d, hok⟩
  intro k
  rcases hpush with hcomp | ⟨d', hints', htrail', hd'⟩
  · exact (hcomplete hcomp k).imp_right Or.inl
  · rcases htrail'.complete_or_breaks hd' with hcomp | hbreaks
    · exact (hcomplete hcomp k).imp_right Or.inl
    · rcases hbreaks k with hdeep | ⟨f, hf, hpos⟩
      · exact Or.inr (Or.inl hdeep)
      · have hlt := pos_lt_of_longer htrail.reaches hd htrail'.reaches hd' (List.cons_ne_nil ch [])
        exact Or.inr (Or.inr ⟨f, hf, by rw [hat.pos, hpos]; exact hlt⟩)

end EntryPoint

/-- What was read is a report on the text itself that names the literal. -/
def namesLiteral {α : Type} (l : String) : Except ReadError α → Bool
  | .error (.report r) =>
    match r.failure.expectation with
    | .expected literals _ => r.detail.isNone && literals.contains l
    | _ => false
  | _ => false

theorem exists_eq_report_of_namesLiteral {α : Type} {l : String} {o : Except ReadError α}
    (h : namesLiteral l o = true) :
    ∃ r literals descriptions, o = .error (.report r) ∧ r.detail ≠ some tooDeepMessage ∧
      r.failure.expectation = .expected literals descriptions ∧ l ∈ literals := by
  match o with
  | .ok a => cases h
  | .error (.interrupted why) => cases h
  | .error (.report r) =>
      rw [namesLiteral] at h
      split at h
      case h_2 => cases h
      case h_1 literals descriptions hpayload =>
        obtain ⟨hnone, hcontains⟩ := Bool.and_eq_true_iff.mp h
        refine ⟨r, literals, descriptions, rfl, ?_, hpayload,
          Std.ExtTreeSet.mem_iff_contains.mpr hcontains⟩
        rw [Option.isNone_iff_eq_none.mp hnone]
        exact fun hsome => by cases hsome

/-- An application with a bracket where an argument or its parenthesis should stand. -/
def bracketedArguments : Text := "(f (lambda (x) y) ] ; the rest".toList

/-- The parenthesis that the error names goes on from the arguments. -/
theorem goes_on_bracketedArguments :
    ∃ r o, parseExpression "args.pie" bracketedArguments false = .error (.report r) ∧
      OffsetOf bracketedArguments r.failure.pos o ∧ ∃ ch, ")" = String.singleton ch ∧
        ∃ n, ∀ k ≥ n,
          (∃ v d, Grammar.rules.run k "args.pie" (expressionParser false)
            (.start (bracketedArguments.take o ++ [ch])) = .ok v d) ∨
          ∃ f, Grammar.rules.run k "args.pie" (expressionParser false)
            (.start (bracketedArguments.take o ++ [ch])) = .fail f ∧ r.failure.pos < f.pos := by
  obtain ⟨r, literals, descriptions, hr, hdetail, hpayload, hl⟩ := exists_eq_report_of_namesLiteral
    (l := ")") (o := parseExpression "args.pie" bracketedArguments false) (by decide +kernel)
  obtain ⟨o, ch, ho, hch, -, hrun⟩ :=
    EntryPoint.literal_goes_on (.expression false) hr hdetail hpayload hl
  exact ⟨r, o, hr, ho, ch, hch, hrun⟩

end PieSyntax
