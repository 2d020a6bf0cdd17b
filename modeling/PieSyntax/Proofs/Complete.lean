import PieSyntax.Proofs.Lists

/-!
# Reading programs

Top-level forms and programs are read where their S-expressions stand in the text.  A list that is
headed by a command is never an expression, so the two alternatives for a form exclude each other.

## Main results

* `Grammar.reads_topLevel` — a top-level form is read where it stands.
* `Grammar.returns_program` — a program is read where it stands.
-/

namespace PieSyntax

namespace Grammar

open PieSyntax.Parser

variable {V : Tails} {G : Cursor → Cursor → Prop} {g : Nat} (hG : Skippable V G g)
variable {source : String} {k : Nat} {c d m : Cursor}

include hG

/-! ## Top-level forms -/

/-- What follows the keyword of a command. -/
theorem returns_commandBody {command : Command} {items : List (SExpr Location)}
    {statement : Statement} {r : Text} (hitems : SExpr.StandAllBy G source items c d)
    (hmean : CommandMeaning id command items statement) (hr : d.rest = ')' :: r)
    (hroom : V.Room (statement.depth + g) k) :
    Returns (rules.call source k) source V (commandBody command) c statement d := by
  have hcall : ∀ {x : SExpr Location} {xs : List (SExpr Location)} {e : Expr} {c m c₁ : Cursor},
      x.StandsBy G source c m → elaborate id x = some e → G m c₁ →
        SExpr.StandAllBy G source xs c₁ d → V.Room (exprDepth e + 1 + g) k →
          Returns (rules.call source k) source V innerExpr c e c₁ :=
    fun {x} {xs} {e} {c m c₁} hx he hgap hxs hroom =>
      returns_innerExpr hG (readsBelow hG source (sizeOf x + 1)) (Nat.lt_succ_self _) hx he hgap
        hxs hr hroom
  have hlast : ∀ {x : SExpr Location} {e : Expr} {c : Cursor},
      SExpr.StandAllBy G source [x] c d → elaborate id x = some e →
        V.Room (exprDepth e + 1 + g) k →
          Returns (rules.call source k) source V innerExpr c e d :=
    fun {x} {e} {c} hx he hroom =>
      returns_last hG (readsBelow hG source (sizeOf x + 1)) (Nat.lt_succ_self _) hx he hr hroom
  refine Reads.named _ ?_
  cases hmean with
  | @claim x y name type hname htype =>
      obtain ⟨m, c₁, hx, hgap, hall⟩ := hitems
      exact Reads.bind (returns_varName hG hx hname hgap hall hr (hroom.imp fun hk => by omega))
        (Reads.map (Statement.claim name) (hlast hall htype hroom))
  | @define x y name value hname hvalue =>
      obtain ⟨m, c₁, hx, hgap, hall⟩ := hitems
      exact Reads.bind (returns_varName hG hx hname hgap hall hr (hroom.imp fun hk => by omega))
        (Reads.map (Statement.define name) (hlast hall hvalue hroom))
  | @checkSame x y z type left right htype hleft hright =>
      obtain ⟨m, c₁, hx, hgap, hall⟩ := hitems
      rw [Statement.depth] at hroom
      have hfirst := hcall hx htype hgap hall (hroom.imp fun hk => by omega)
      obtain ⟨m', c₂, hy, hgap', hall'⟩ := hall
      have hsecond := hcall hy hleft hgap' hall' (hroom.imp fun hk => by omega)
      exact Reads.bind hfirst (Reads.bind hsecond (Reads.map (Statement.checkSame type left)
        (hlast hall' hright (hroom.imp fun hk => by omega))))

/-- Where no command stands, the reader of commands fails. -/
theorem declines_command {x : SExpr Location} {e : Expr} (hx : x.StandsBy G source c m)
    (hmean : elaborate id x = some e) (hroom : V.Room g k) :
    Declines (rules.call source k) source V
      (parensLocated skip (dispatch commandTable commandBody)) c := by
  have hother : ∀ {ch : Char} {s : Text}, c.rest = ch :: s → ch ≠ '(' →
      Declines (rules.call source k) source V
        (parensLocated skip (dispatch commandTable commandBody)) c := by
    intro ch s hs hch
    exact Declines.parensLocated fun v hv hhead => hch (head_append (V := V) hs v hv _ hhead).symm
  cases x with
  | word loc name =>
      obtain ⟨ch, r, hr, hch⟩ := head_of_stands_word hx
      exact hother hr (ne_of_isWordStart hch (by decide))
  | quoted loc name =>
      obtain ⟨r, hr, -⟩ := hx
      exact hother hr (by decide)
  | numeral loc run =>
      obtain ⟨hrun, -, -⟩ := hx
      obtain ⟨r, hr⟩ := exists_of_digitPrefix hrun
      obtain ⟨ch, t, rfl, hch⟩ := head_of_digitPrefix hrun
      refine hother (s := t ++ r) hr ?_
      rintro rfl
      revert hch
      decide
  | list loc items =>
      have hcommand := asCommand?_eq_none_of_elaborate hmean
      obtain ⟨c₁, d, ⟨r, hr⟩, hgap, hitems, ⟨r', hr'⟩, -⟩ := hx
      cases items with
      | nil => cases hmean
      | cons y ys =>
          have hskip : Returns (rules.call source k) source V skip (c.skip ['(']) () c₁ :=
            hG.returns hgap (clear_of_standAll hG hitems hr') hroom
          obtain ⟨m', c₂, hy, hgap', hys⟩ := hitems
          refine Declines.parensLocated_inside hr hskip
            (Declines.bind (declines_keywordTable hG hy (fun label name hword => ?_) hgap' hys hr'
              hroom))
          rw [hword, SExpr.asCommand?, Option.map_eq_none_iff] at hcommand
          exact hcommand

/-- A top-level form is read where it stands, up to the trivia after it. -/
theorem reads_topLevel {x : SExpr Location} {t : TopLevel} (hx : x.StandsBy G source c m)
    (hmean : elaborateTopLevel id x = some t) (hclosed : x.Closed V m)
    (hroom : V.Room (t.depth + g) k) : Reads (rules.call source k) source V skip topLevel c t m := by
  have hlow : V.Room g k := hroom.imp fun hk => by omega
  rcases elaborateTopLevel_eq_some hmean with
    ⟨label, l, name, command, items, statement, rfl, hlookup, hmeaning, rfl⟩ | ⟨e, -, he, rfl⟩
  · obtain ⟨c₁, d, ⟨r, hr⟩, hgap, hitems, ⟨r', hr'⟩, rfl, rfl⟩ := hx
    have hskip : Returns (rules.call source k) source V skip (c.skip ['(']) () c₁ :=
      hG.returns hgap (clear_of_standAll hG hitems hr') hlow
    obtain ⟨m', c₂, hword, hgap', hys⟩ := hitems
    exact Reads.orElse_left (Reads.parensLocated hr hskip
      (Reads.bind (reads_keywordTable hG hword hlookup hgap' hys hr' hlow)
        (returns_commandBody hG hys hmeaning hr' hroom)) hr')
  · exact Reads.orElse_right (declines_command hG hx he hlow)
      (Reads.map (fun e => (⟨e.loc, .expr e⟩ : TopLevel)) (reads_expr hG hx he hclosed hroom))

end Grammar

/-! ## Programs -/

namespace Grammar

open PieSyntax.Parser

variable {cut : Prop} {G : Cursor → Cursor → Prop} {g : Nat} (hG : Skippable (.empty cut) G g)
variable {source : String} {k : Nat} {c d m : Cursor}

/-- With nothing after it an S-expression ends where it does. -/
theorem closed_empty {L : Type} (x : SExpr L) (m : Cursor) : x.Closed (.empty cut) m := by
  refine Or.inr fun v hv => ?_
  obtain rfl : v = [] := hv
  cases x with
  | word label name => exact fun ch hch => by cases hch
  | quoted label name => exact fun ch hch => by cases hch
  | numeral label run => exact fun ch hch => by cases hch
  | list label items => trivial

/-- At the end of a text, and before a form, the trivia are known. -/
theorem clear_of_end {xs : List (SExpr Location)} (hxs : SExpr.StandAllBy G source xs c d)
    (hd : d.rest = []) : Clear (.empty cut) c.rest := by
  refine ⟨fun _ v hv => hv, fun v hv => ?_⟩
  have hnil : v = [] := hv
  rw [hnil, List.append_nil]
  refine hxs.solid ?_
  rw [hd]
  intro ch hch
  cases hch

include hG

theorem returns_manyTill {xs : List (SExpr Location)} {ts : List TopLevel}
    (hxs : SExpr.StandAllBy G source xs c d) (hmean : elaborateProgram id xs = some ts)
    (hd : d.rest = []) (hroom : ∀ t ∈ ts, (Tails.empty cut).Room (t.depth + g) k) :
    Returns (rules.call source k) source (.empty cut) (topLevel.manyTill .eof) c ts d := by
  have hcall := rules.call_reaches source k
  induction xs generalizing c ts with
  | nil =>
      obtain rfl := hxs
      cases hmean
      refine Returns.manyTill_nil hcall (b := ()) (Returns.of_eval fun v hv => ?_)
      have hnil : v = [] := hv
      have hend : (d.before v).atEnd = true := by
        rw [Cursor.atEnd, Cursor.before_rest, hd, hnil]
        rfl
      rw [Parser.eval, if_pos hend]
  | cons x xs ih =>
      obtain ⟨m, c₁, hx, hgap, hall⟩ := hxs
      rw [elaborateProgram] at hmean
      obtain ⟨t, ht, hrest⟩ := Option.bind_eq_some_iff.mp hmean
      obtain ⟨ts', hts, rfl⟩ := Option.map_eq_some_iff.mp hrest
      have hself := hroom t List.mem_cons_self
      have hstop : Declines (rules.call source k) source (.empty cut) .eof c := by
        refine Declines.of_eval fun v hv => ?_
        have hnil : v = [] := hv
        have hnot : ¬ (c.before v).atEnd = true := by
          rw [Cursor.atEnd, Cursor.before_rest, hnil, List.append_nil, List.isEmpty_iff]
          exact hx.solid.2
        exact ⟨_, by rw [Parser.eval, if_neg hnot]; rfl⟩
      exact Returns.manyTill_cons hcall hstop
        (Reads.close (reads_topLevel hG hx ht (closed_empty x m) hself)
          (hG.returns hgap (clear_of_end hall hd) (hself.imp fun hk => by omega)))
        (offset_ne_of_stands hG hx hgap)
        (ih hall hts fun t' ht' => hroom t' (List.mem_cons_of_mem _ ht'))

/-- A program is read where it stands. -/
theorem returns_program {xs : List (SExpr Location)} {ts : List TopLevel} {c₁ : Cursor} {r : Text}
    (hr : c.rest = header ++ r) (hgap : G (c.skip header) c₁)
    (hxs : SExpr.StandAllBy G source xs c₁ d) (hmean : elaborateProgram id xs = some ts)
    (hd : d.rest = []) (hlow : (Tails.empty cut).Room g (k + 1))
    (hroom : ∀ t ∈ ts, (Tails.empty cut).Room (t.depth + g) k) :
    Returns (rules.call source k) source (.empty cut) program c ts d :=
  Reads.andThen
    (Reads.andThen (Returns.text hr) (hG.returns_trivia hgap (clear_of_end hxs hd) hlow))
    (returns_manyTill hG hxs hmean hd hroom)

end Grammar

end PieSyntax
