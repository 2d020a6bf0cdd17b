import PieSyntax.Proofs.Elaborate
import PieSyntax.Proofs.Skipping

/-!
# Where S-expressions stand

`x.Stands source c m` says that the text at the cursor `c` starts with `x`, labelled with its places,
and that `m` is the cursor right after it.  Between the items of a list there are gaps; in
`x.StandsBy G source c m` these are gaps of the kind `G`.  Nothing is said of parsers: the two
directions of the grammar meet in this relation.

## Main results

* `SExpr.StandsBy.start`, `SExpr.StandsBy.reaches` — an S-expression starts with a character of its
  own and takes one at least.
* `SExpr.StandsBy.dropped`, `exists_stands_of_dropped` — a datum is an S-expression without quoted
  words.
* `elaborateProgram_plainAll` — places are not looked at by elaboration.
-/

namespace PieSyntax

mutual

/-- The S-expression starts at `c` and ends at `m`, with gaps of the given kind in it. -/
def SExpr.StandsBy (G : Cursor → Cursor → Prop) (source : String) :
    SExpr Location → Cursor → Cursor → Prop
  | .word loc name, c, m =>
      wordPrefix c.rest = some name ∧ m = c.skip name ∧ loc = ⟨source, c.pos, m.pos⟩
  | .quoted loc name, c, m =>
      ∃ r, c.rest = '\'' :: r ∧ wordPrefix r = some name ∧ m = c.skip ('\'' :: name) ∧
        loc = ⟨source, c.pos, m.pos⟩
  | .numeral loc run, c, m =>
      digitPrefix c.rest = some run ∧ m = c.skip run ∧ loc = ⟨source, c.pos, m.pos⟩
  | .list loc items, c, m =>
      ∃ c₁ d, (∃ r, c.rest = '(' :: r) ∧ G (c.skip ['(']) c₁ ∧
        SExpr.StandAllBy G source items c₁ d ∧ (∃ r, d.rest = ')' :: r) ∧ m = d.skip [')'] ∧
          loc = ⟨source, c.pos, m.pos⟩

/-- The S-expressions stand one after the other from `c` to `d`, each with a gap after it. -/
def SExpr.StandAllBy (G : Cursor → Cursor → Prop) (source : String) :
    List (SExpr Location) → Cursor → Cursor → Prop
  | [], c, d => d = c
  | x :: xs, c, d => ∃ m c₁, x.StandsBy G source c m ∧ G m c₁ ∧ SExpr.StandAllBy G source xs c₁ d

end

/-- The S-expression starts at `c` and ends at `m`. -/
abbrev SExpr.Stands (source : String) (x : SExpr Location) (c m : Cursor) : Prop :=
  x.StandsBy Cursor.Gap source c m

/-- The S-expressions stand one after the other from `c` to `d`, each with a gap after it. -/
abbrev SExpr.StandAll (source : String) (xs : List (SExpr Location)) (c d : Cursor) : Prop :=
  SExpr.StandAllBy Cursor.Gap source xs c d

mutual

/-- What stands with gaps of one kind stands with gaps of a wider kind. -/
theorem SExpr.StandsBy.mono {G G' : Cursor → Cursor → Prop} (hG : ∀ c d, G c d → G' c d)
    {source : String} {x : SExpr Location} {c m : Cursor} (h : x.StandsBy G source c m) :
    x.StandsBy G' source c m := by
  match x with
  | .word loc name => exact h
  | .quoted loc name => exact h
  | .numeral loc run => exact h
  | .list loc items =>
      obtain ⟨c₁, d, hr, hgap, hall, hr', hm, hloc⟩ := h
      exact ⟨c₁, d, hr, hG _ _ hgap, SExpr.StandAllBy.mono hG hall, hr', hm, hloc⟩

theorem SExpr.StandAllBy.mono {G G' : Cursor → Cursor → Prop} (hG : ∀ c d, G c d → G' c d)
    {source : String} {xs : List (SExpr Location)} {c d : Cursor}
    (h : SExpr.StandAllBy G source xs c d) : SExpr.StandAllBy G' source xs c d := by
  match xs with
  | [] => exact h
  | x :: xs =>
      obtain ⟨m, c₁, hx, hgap, hxs⟩ := h
      exact ⟨m, c₁, SExpr.StandsBy.mono hG hx, hG _ _ hgap, SExpr.StandAllBy.mono hG hxs⟩

end

/-- The place of an S-expression. -/
def SExpr.label {L : Type} : SExpr L → L
  | .word label _ => label
  | .quoted label _ => label
  | .numeral label _ => label
  | .list label _ => label

/-- A character that an S-expression may start with. -/
def startsItem (ch : Char) : Bool := isWordStart ch || isDigit ch || ch = '\'' || ch = '('

theorem startsTrivia_of_startsItem {ch : Char} (h : startsItem ch = true) :
    startsTrivia ch = false :=
  startsTrivia_eq_false (by decide) h

theorem exists_of_wordPrefix {s name : Text} (h : wordPrefix s = some name) :
    ∃ r, s = name ++ r := by
  obtain ⟨r, hr, -⟩ := wordPrefix_eq_some_iff.mp h
  exact ⟨r, hr⟩

theorem exists_of_digitPrefix {s run : Text} (h : digitPrefix s = some run) :
    ∃ r, s = run ++ r := by
  obtain ⟨r, hr, -⟩ := digitPrefix_eq_some_iff.mp h
  exact ⟨r, hr⟩

theorem head_of_digitPrefix {s run : Text} (h : digitPrefix s = some run) :
    ∃ ch t, run = ch :: t ∧ isDigit ch = true := by
  obtain ⟨r, -, hne, hall, -⟩ := digitPrefix_eq_some_iff.mp h
  obtain ⟨ch, t, rfl⟩ := List.exists_cons_of_ne_nil hne
  exact ⟨ch, t, rfl, hall ch (by simp)⟩

/-- What starts with a digit is no word. -/
theorem wordPrefix_of_digitPrefix {s run : Text} (h : digitPrefix s = some run) :
    wordPrefix s = none := by
  obtain ⟨r, rfl⟩ := exists_of_digitPrefix h
  obtain ⟨ch, t, rfl, hch⟩ := head_of_digitPrefix h
  refine wordPrefix_eq_none_of_head fun x hx => ?_
  cases hx
  exact isWordStart_of_isDigit hch

namespace Cursor

theorem Gap.refl (c : Cursor) : c.Gap c := ⟨Reaches.refl c, .none _⟩

theorem Reaches.length_le {c d : Cursor} (h : c.Reaches d) : d.rest.length ≤ c.rest.length := by
  obtain ⟨u, hu⟩ := h
  rw [hu.rest, List.length_append]
  omega

theorem length_skip_lt {c : Cursor} {u r : Text} (h : c.rest = u ++ r) (hne : u ≠ []) :
    (c.skip u).rest.length < c.rest.length := by
  have hlen := List.length_pos_iff.mpr hne
  rw [rest_skip h, h, List.length_append]
  omega

end Cursor

namespace SExpr

variable {G : Cursor → Cursor → Prop} {source : String} {c d m : Cursor}

theorem StandsBy.start {x : SExpr Location} (h : x.StandsBy G source c m) :
    ∃ ch r, c.rest = ch :: r ∧ startsItem ch = true := by
  cases x with
  | word loc name =>
      obtain ⟨hname, -, -⟩ := h
      obtain ⟨r, hr⟩ := exists_of_wordPrefix hname
      obtain ⟨ch, t, rfl, hch⟩ := (IsWord.of_wordPrefix hname).head
      exact ⟨ch, t ++ r, hr, by simp [startsItem, hch]⟩
  | quoted loc name =>
      obtain ⟨r, hr, -⟩ := h
      exact ⟨'\'', r, hr, by decide⟩
  | numeral loc run =>
      obtain ⟨hrun, -, -⟩ := h
      obtain ⟨r, hr⟩ := exists_of_digitPrefix hrun
      obtain ⟨ch, t, rfl, hch⟩ := head_of_digitPrefix hrun
      exact ⟨ch, t ++ r, hr, by simp [startsItem, hch]⟩
  | list loc items =>
      obtain ⟨c₁, d, ⟨r, hr⟩, -⟩ := h
      exact ⟨'(', r, hr, by decide⟩

theorem StandsBy.solid {x : SExpr Location} (h : x.StandsBy G source c m) :
    Solid c.rest ∧ c.rest ≠ [] := by
  obtain ⟨ch, r, hr, hch⟩ := h.start
  rw [hr]
  exact ⟨solid_cons (startsTrivia_of_startsItem hch) r, List.cons_ne_nil _ _⟩

theorem StandsBy.label_eq {x : SExpr Location} (h : x.StandsBy G source c m) :
    x.label = ⟨source, c.pos, m.pos⟩ := by
  cases x with
  | word loc name => exact h.2.2
  | quoted loc name =>
      obtain ⟨r, -, -, -, hloc⟩ := h
      exact hloc
  | numeral loc run => exact h.2.2
  | list loc items =>
      obtain ⟨c₁, d, -, -, -, -, -, hloc⟩ := h
      exact hloc

mutual

theorem StandsBy.reaches {x : SExpr Location} {c m : Cursor} (h : x.Stands source c m) :
    c.Reaches m ∧ m.rest.length < c.rest.length := by
  match x with
  | .word loc name =>
      obtain ⟨hname, rfl, -⟩ := h
      obtain ⟨r, hr⟩ := exists_of_wordPrefix hname
      exact ⟨Cursor.reaches_skip hr,
        Cursor.length_skip_lt hr (IsWord.of_wordPrefix hname).ne_nil⟩
  | .quoted loc name =>
      obtain ⟨r, hr, hname, rfl, -⟩ := h
      obtain ⟨r', rfl⟩ := exists_of_wordPrefix hname
      have hrest : c.rest = ('\'' :: name) ++ r' := hr
      exact ⟨Cursor.reaches_skip hrest, Cursor.length_skip_lt hrest (List.cons_ne_nil _ _)⟩
  | .numeral loc run =>
      obtain ⟨hrun, rfl, -⟩ := h
      obtain ⟨r, hr⟩ := exists_of_digitPrefix hrun
      obtain ⟨ch, t, rfl, -⟩ := head_of_digitPrefix hrun
      exact ⟨Cursor.reaches_skip hr, Cursor.length_skip_lt hr (List.cons_ne_nil _ _)⟩
  | .list loc items =>
      obtain ⟨c₁, d, ⟨r, hr⟩, hgap, hall, ⟨r', hr'⟩, rfl, -⟩ := h
      have hopen := Cursor.length_skip_lt (u := ['(']) (r := r) hr (List.cons_ne_nil _ _)
      have hclose := Cursor.length_skip_lt (u := [')']) (r := r') hr' (List.cons_ne_nil _ _)
      have hreach := hgap.reaches.trans (StandAllBy.reaches hall)
      have hle := hreach.length_le
      refine ⟨?_, by omega⟩
      exact ((Cursor.reaches_skip (u := ['(']) (r := r) hr).trans hreach).trans
        (Cursor.reaches_skip (u := [')']) (r := r') hr')

theorem StandAllBy.reaches {xs : List (SExpr Location)} {c d : Cursor}
    (h : StandAll source xs c d) : c.Reaches d := by
  match xs with
  | [] =>
      obtain rfl := h
      exact Cursor.Reaches.refl _
  | x :: xs =>
      obtain ⟨m, c₁, hx, hgap, hxs⟩ := h
      exact ((StandsBy.reaches hx).1.trans hgap.reaches).trans (StandAllBy.reaches hxs)

end

theorem StandAllBy.solid {xs : List (SExpr Location)} (h : StandAllBy G source xs c d)
    (hd : Solid d.rest) : Solid c.rest := by
  cases xs with
  | nil =>
      obtain rfl := h
      exact hd
  | cons x xs =>
      obtain ⟨m, c₁, hx, -⟩ := h
      exact hx.solid.1

theorem StandAllBy.ne_nil {xs : List (SExpr Location)} (h : StandAll source xs c d)
    (hd : d.rest ≠ []) : c.rest ≠ [] := by
  intro hnil
  have hle := h.reaches.length_le
  rw [hnil] at hle
  exact hd (List.eq_nil_of_length_eq_zero (Nat.le_zero.mp hle))

end SExpr

/-! ## Data -/

mutual

/-- No quoted words stand in the S-expression. -/
def SExpr.isDatum {L : Type} : SExpr L → Bool
  | .word _ _ => true
  | .quoted _ _ => false
  | .numeral _ _ => true
  | .list _ items => SExpr.areData items

/-- No quoted words stand in the S-expressions. -/
def SExpr.areData {L : Type} : List (SExpr L) → Bool
  | [] => true
  | x :: xs => x.isDatum && SExpr.areData xs

end

namespace SExpr

variable {source : String}

mutual

/-- A datum can be dropped. -/
theorem StandsBy.dropped {x : SExpr Location} {c m : Cursor} (h : x.Stands source c m)
    (hx : x.isDatum = true) : Dropped .datum c.rest m.rest := by
  match x with
  | .word loc name =>
      obtain ⟨hname, rfl, -⟩ := h
      obtain ⟨r, hr⟩ := exists_of_wordPrefix hname
      rw [Cursor.rest_skip hr, hr]
      exact .word (hr ▸ hname)
  | .quoted loc name => cases hx
  | .numeral loc run =>
      obtain ⟨hrun, rfl, -⟩ := h
      obtain ⟨r, hr⟩ := exists_of_digitPrefix hrun
      rw [Cursor.rest_skip hr, hr]
      exact .digits (hr ▸ hrun)
  | .list loc items =>
      obtain ⟨c₁, d, ⟨r, hr⟩, hgap, hall, ⟨r', hr'⟩, rfl, -⟩ := h
      have hbefore := hgap.dropped
      have hdata := StandAllBy.dropped hall hx
      rw [Cursor.rest_skip (u := ['(']) (r := r) hr] at hbefore
      rw [hr'] at hdata
      rw [Cursor.rest_skip (u := [')']) (r := r') hr', hr]
      exact .group hbefore hdata

theorem StandAllBy.dropped {xs : List (SExpr Location)} {c d : Cursor}
    (h : StandAll source xs c d) (hxs : areData xs = true) : Dropped .data c.rest d.rest := by
  match xs with
  | [] =>
      obtain rfl := h
      exact .nil _
  | x :: xs =>
      obtain ⟨m, c₁, hx, hgap, hall⟩ := h
      rw [areData, Bool.and_eq_true] at hxs
      exact .cons (StandsBy.dropped hx hxs.1) hgap.dropped (StandAllBy.dropped hall hxs.2)

end

end SExpr

/-- What was dropped, as S-expressions at their places. -/
def StandsExtent (source : String) : Extent → Cursor → Text → Prop
  | .trivia, _, _ => True
  | .datum, c, s' => ∃ (x : SExpr Location) (m : Cursor), x.isDatum = true ∧ x.Stands source c m ∧
      m.rest = s'
  | .data, c, s' => ∃ (xs : List (SExpr Location)) (d : Cursor), SExpr.areData xs = true ∧
      SExpr.StandAll source xs c d ∧ d.rest = s'

theorem exists_stands_of_dropped {source : String} {x : Extent} {s s' : Text}
    (h : Dropped x s s') : ∀ c : Cursor, c.rest = s → StandsExtent source x c s' := by
  have hgap : ∀ {s s' : Text} {c : Cursor}, Dropped .trivia s s' → c.rest = s →
      ∃ d, c.Gap d ∧ d.rest = s' := by
    intro s s' c hs hc
    obtain ⟨u, hu⟩ := hs.suffix
    have hd := Cursor.rest_skip (hc.trans hu)
    exact ⟨c.skip u, ⟨Cursor.reaches_skip (hc.trans hu), by rw [hc, hd]; exact hs⟩, hd⟩
  induction h with
  | none s => exact fun _ _ => trivial
  | white hch h ih => exact fun _ _ => trivial
  | line hbody h ih => exact fun _ _ => trivial
  | lastLine hbody => exact fun _ _ => trivial
  | comment h₁ h₂ h₃ ih₁ ih₂ ih₃ => exact fun _ _ => trivial
  | @word name r h =>
      intro c hc
      exact ⟨.word ⟨source, c.pos, (c.skip name).pos⟩ name, c.skip name, rfl,
        ⟨hc ▸ h, rfl, rfl⟩, Cursor.rest_skip hc⟩
  | @digits run r h =>
      intro c hc
      exact ⟨.numeral ⟨source, c.pos, (c.skip run).pos⟩ run, c.skip run, rfl,
        ⟨hc ▸ h, rfl, rfl⟩, Cursor.rest_skip hc⟩
  | @group s s₁ s' h₁ h₂ ih₁ ih₂ =>
      intro c hc
      have hs := Cursor.rest_skip (u := ['(']) (r := s) hc
      obtain ⟨c₁, hgap₁, hc₁⟩ := hgap h₁ hs
      obtain ⟨xs, d, hdata, hall, hd⟩ := ih₂ c₁ hc₁
      exact ⟨.list ⟨source, c.pos, (d.skip [')']).pos⟩ xs, d.skip [')'], hdata,
        ⟨c₁, d, ⟨s, hc⟩, hgap₁, hall, ⟨s', hd⟩, rfl, rfl⟩, Cursor.rest_skip (u := [')']) hd⟩
  | nil s =>
      intro c hc
      exact ⟨[], c, rfl, rfl, hc⟩
  | @cons s s₁ s₂ s' h₁ h₂ h₃ ih₁ ih₂ ih₃ =>
      intro c hc
      obtain ⟨x, m, hx, hstands, hm⟩ := ih₁ c hc
      obtain ⟨c₁, hgap₁, hc₁⟩ := hgap h₂ hm
      obtain ⟨xs, d, hxs, hall, hd⟩ := ih₃ c₁ hc₁
      refine ⟨x :: xs, d, ?_, ⟨m, c₁, hstands, hgap₁, hall⟩, hd⟩
      rw [SExpr.areData, hx, hxs, Bool.and_self]

/-! ## Without places -/

/-- The S-expression without its places. -/
abbrev SExpr.plain (x : SExpr Location) : SExpr Unit := x.map fun _ => ()

/-- The S-expressions without their places. -/
abbrev SExpr.plainAll (xs : List (SExpr Location)) : List (SExpr Unit) :=
  SExpr.mapAll (fun _ => ()) xs

mutual

@[simp] theorem SExpr.isDatum_map {L M : Type} (g : L → M) (x : SExpr L) :
    (x.map g).isDatum = x.isDatum := by
  match x with
  | .word _ _ => rfl
  | .quoted _ _ => rfl
  | .numeral _ _ => rfl
  | .list _ items => exact SExpr.areData_map g items

@[simp] theorem SExpr.areData_map {L M : Type} (g : L → M) (xs : List (SExpr L)) :
    SExpr.areData (SExpr.mapAll g xs) = SExpr.areData xs := by
  match xs with
  | [] => rfl
  | x :: xs => rw [SExpr.mapAll, SExpr.areData, SExpr.areData, isDatum_map, areData_map]

end

theorem elaborateProgram_plainAll (xs : List (SExpr Location)) :
    elaborateProgram (fun _ => .nowhere) (SExpr.plainAll xs) =
      (elaborateProgram id xs).map (List.map TopLevel.bare) :=
  elaborateProgram_map (f := fun _ => .nowhere) (g := fun _ => ()) (fun _ => rfl) xs

end PieSyntax
