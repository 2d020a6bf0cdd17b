import Mathlib.Data.List.Forall2
import PieSyntax.Proofs.Reach

/-!
# Two runs side by side

Two runs of related parsers, from cursors with the same text before them, go the same way: the
engine looks at the text that is left and compares positions and offsets, and at nothing else.

A `Tracking` relates the cursors of the two runs.  `Parser.Related` relates parsers that are built
alike and whose judgements and continuations treat related values alike; `Outcome.Related` relates
how the runs end.  What the values have in common is a parameter, so the same statement moves a run
to another place in a text and finds an invariant of the values of one run.

## Main results

* `Parser.eval_related` — related parsers end alike from related cursors.
* `Rules.call_related`, `Rules.run_related` — the same over rules that are related to themselves.
-/

namespace PieSyntax

/-- A relation between the cursors of two runs, and between their positions, that the engine
cannot tell from equality. -/
structure Tracking where
  cursor : Cursor → Cursor → Prop
  position : Position → Position → Prop
  rest_eq : ∀ {c c'}, cursor c c' → c'.rest = c.rest
  skip : ∀ {c c'} {u r : Text}, cursor c c' → c.rest = u ++ r → cursor (c.skip u) (c'.skip u)
  pos : ∀ {c c'}, cursor c c' → position c.pos c'.pos
  offset_iff : ∀ {c c' d d'}, cursor c c' → cursor d d' →
    (c.offset = d.offset ↔ c'.offset = d'.offset)
  lt_iff : ∀ {p p' q q'}, position p p' → position q q' → (p < q ↔ p' < q')

namespace Tracking

variable (K : Tracking) {α β : Type}

/-- Failures at related positions, with the same payload. -/
def Fails (f f' : Failure) : Prop := K.position f.pos f'.pos ∧ f.expectation = f'.expectation

/-- Interruptions of the same kind; a stalled loop stands still at related positions. -/
inductive Breaks : Interruption → Interruption → Prop where
  | stalled {loop : Repetition} {label : String} {p p' : Position} (h : K.position p p') :
    Breaks (.stalled loop label p) (.stalled loop label p')
  | other (why : Interruption) (h : ∀ loop label p, why ≠ .stalled loop label p) :
    Breaks why why

/-- The same span up to related positions. -/
def Spans (l l' : Location) : Prop :=
  l.source = l'.source ∧ K.position l.start l'.start ∧ K.position l.finish l'.finish

/-- Related values at related places. -/
def Places (T : α → β → Prop) (x : Located α) (y : Located β) : Prop :=
  K.Spans x.loc y.loc ∧ T x.value y.value

end Tracking

/-! ## Outcomes -/

namespace Outcome

variable (K : Tracking) {α β γ δ : Type}

/-- Two runs that end alike. -/
inductive Related (T : α → β → Prop) : Outcome α → Outcome β → Prop where
  | ok {a : α} {b : β} {c c' : Cursor} (h : T a b) (hc : K.cursor c c') :
    Related T (.ok a c) (.ok b c')
  | fail {f f' : Failure} (h : K.Fails f f') : Related T (.fail f) (.fail f')
  | interrupted {why why' : Interruption} (h : K.Breaks why why') :
    Related T (.interrupted why) (.interrupted why')

variable {K}

theorem Related.mono {T U : α → β → Prop} (h : ∀ a b, T a b → U a b) {o : Outcome α}
    {o' : Outcome β} (ho : Related K T o o') : Related K U o o' := by
  cases ho with
  | ok ht hc => exact .ok (h _ _ ht) hc
  | fail hf => exact .fail hf
  | interrupted hw => exact .interrupted hw

theorem Related.exists_ok {T : α → β → Prop} {o : Outcome α} {o' : Outcome β} {a : α} {d : Cursor}
    (h : Related K T o o') (ho : o = .ok a d) : ∃ b d', o' = .ok b d' ∧ T a b ∧ K.cursor d d' := by
  cases h with
  | ok ht hd =>
      cases ho
      exact ⟨_, _, rfl, ht, hd⟩
  | fail hf => cases ho
  | interrupted hw => cases ho

theorem Related.exists_fail {T : α → β → Prop} {o : Outcome α} {o' : Outcome β} {f : Failure}
    (h : Related K T o o') (ho : o = .fail f) : ∃ f', o' = .fail f' ∧ K.Fails f f' := by
  cases h with
  | ok ht hd => cases ho
  | fail hf =>
      cases ho
      exact ⟨_, rfl, hf⟩
  | interrupted hw => cases ho

theorem Related.exists_interrupted {T : α → β → Prop} {o : Outcome α} {o' : Outcome β}
    {why : Interruption} (h : Related K T o o') (ho : o = .interrupted why) :
    ∃ why', o' = .interrupted why' ∧ K.Breaks why why' := by
  cases h with
  | ok ht hd => cases ho
  | fail hf => cases ho
  | interrupted hw =>
      cases ho
      exact ⟨_, rfl, hw⟩

theorem Related.failAt {T : α → β → Prop} {c c' : Cursor} (hc : K.cursor c c')
    (e : Expectation) : Related K T (failAt c e) (failAt c' e) :=
  .fail ⟨K.pos hc, rfl⟩

theorem Related.andThen {T : α → β → Prop} {U : γ → δ → Prop} {o : Outcome α} {o' : Outcome β}
    {k : α → Cursor → Outcome γ} {k' : β → Cursor → Outcome δ} (ho : Related K T o o')
    (hk : ∀ a b d d', T a b → K.cursor d d' → Related K U (k a d) (k' b d')) :
    Related K U (o.andThen k) (o'.andThen k') := by
  cases ho with
  | ok ht hc => exact hk _ _ _ _ ht hc
  | fail hf => exact .fail hf
  | interrupted hw => exact .interrupted hw

/-- The rule of the furthest failure does not see which of the two runs it is in. -/
theorem fails_furthest {f f' g g' : Failure} (hf : K.Fails f f') (hg : K.Fails g g') :
    K.Fails (f.furthest g) (f'.furthest g') := by
  have hfg := K.lt_iff hf.1 hg.1
  have hgf := K.lt_iff hg.1 hf.1
  unfold Failure.furthest
  by_cases h : g.pos < f.pos
  · rw [if_pos h, if_pos (hgf.mp h)]
    exact hf
  · rw [if_neg h, if_neg (fun h' => h (hgf.mpr h'))]
    by_cases h2 : f.pos < g.pos
    · rw [if_pos h2, if_pos (hfg.mp h2)]
      exact hg
    · rw [if_neg h2, if_neg (fun h' => h2 (hfg.mpr h'))]
      exact ⟨hf.1, by rw [hf.2, hg.2]⟩

theorem Related.orElse {T : α → β → Prop} {o : Outcome α} {o' : Outcome β}
    {k : Unit → Outcome α} {k' : Unit → Outcome β} (ho : Related K T o o')
    (hk : Related K T (k ()) (k' ())) : Related K T (o.orElse k) (o'.orElse k') := by
  cases ho with
  | ok ht hc => exact .ok ht hc
  | interrupted hw => exact .interrupted hw
  | fail hf =>
      unfold Outcome.orElse
      generalize k () = o at hk
      generalize k' () = o' at hk
      cases hk with
      | ok ht hc => exact .ok ht hc
      | interrupted hw => exact .interrupted hw
      | fail hg => exact .fail (fails_furthest hf hg)

theorem manyLoop_related {T : α → β → Prop} {item : Cursor → Outcome α}
    {item' : Cursor → Outcome β} {label label' : Unit → String} (hlabel : label () = label' ())
    (hitem : ∀ c c', K.cursor c c' → Related K T (item c) (item' c')) (fuel : Text)
    {c c' : Cursor} (hc : K.cursor c c') {done : List α} {done' : List β}
    (hdone : List.Forall₂ T done done') :
    Related K (List.Forall₂ T) (manyLoop item label fuel c done)
      (manyLoop item' label' fuel c' done') := by
  fun_induction manyLoop item label fuel c done generalizing c' done' with
  | case1 fuel c done f hf =>
      obtain ⟨f', hf', -⟩ := (hitem c c' hc).exists_fail hf
      rw [manyLoop, hf']
      exact .ok (List.rel_reverse hdone) hc
  | case2 fuel c done why hwhy =>
      obtain ⟨why', hwhy', hw⟩ := (hitem c c' hc).exists_interrupted hwhy
      rw [manyLoop, hwhy']
      exact .interrupted hw
  | case3 fuel c done a d hok hstill =>
      obtain ⟨b, d', hok', -, hd⟩ := (hitem c c' hc).exists_ok hok
      rw [manyLoop, hok', hlabel]
      simp only [(K.offset_iff hd hc).mp hstill, if_true]
      exact .interrupted (.stalled (K.pos hc))
  | case4 c done a d hok hmoved =>
      obtain ⟨b, d', hok', -, hd⟩ := (hitem c c' hc).exists_ok hok
      rw [manyLoop, hok', hlabel]
      simp only [mt (K.offset_iff hd hc).mpr hmoved, if_false]
      exact .interrupted (.stalled (K.pos hc))
  | case5 c done a d hok hmoved ch fuel ih =>
      obtain ⟨b, d', hok', ht, hd⟩ := (hitem c c' hc).exists_ok hok
      conv => rhs; rw [manyLoop, hok']
      simp only [mt (K.offset_iff hd hc).mpr hmoved, if_false]
      exact ih hd (.cons ht hdone)

theorem manyTillLoop_related {T : α → β → Prop} {U : γ → δ → Prop} {item : Cursor → Outcome α}
    {item' : Cursor → Outcome β} {stop : Cursor → Outcome γ} {stop' : Cursor → Outcome δ}
    {label label' : Unit → String} (hlabel : label () = label' ())
    (hitem : ∀ c c', K.cursor c c' → Related K T (item c) (item' c'))
    (hstop : ∀ c c', K.cursor c c' → Related K U (stop c) (stop' c')) (fuel : Text)
    {c c' : Cursor} (hc : K.cursor c c') {done : List α} {done' : List β}
    (hdone : List.Forall₂ T done done') :
    Related K (List.Forall₂ T) (manyTillLoop item stop label fuel c done)
      (manyTillLoop item' stop' label' fuel c' done') := by
  fun_induction manyTillLoop item stop label fuel c done generalizing c' done' with
  | case1 fuel c done b d hok =>
      obtain ⟨b', d', hok', -, hd⟩ := (hstop c c' hc).exists_ok hok
      rw [manyTillLoop, hok']
      exact .ok (List.rel_reverse hdone) hd
  | case2 fuel c done why hwhy =>
      obtain ⟨why', hwhy', hw⟩ := (hstop c c' hc).exists_interrupted hwhy
      rw [manyTillLoop, hwhy']
      exact .interrupted hw
  | case3 fuel c done f hf g hg =>
      obtain ⟨f', hf', hff⟩ := (hstop c c' hc).exists_fail hf
      obtain ⟨g', hg', hgg⟩ := (hitem c c' hc).exists_fail hg
      rw [manyTillLoop, hf', hg']
      exact .fail (fails_furthest hff hgg)
  | case4 fuel c done f hf why hwhy =>
      obtain ⟨f', hf', -⟩ := (hstop c c' hc).exists_fail hf
      obtain ⟨why', hwhy', hw⟩ := (hitem c c' hc).exists_interrupted hwhy
      rw [manyTillLoop, hf', hwhy']
      exact .interrupted hw
  | case5 fuel c done f hf a d hok hstill =>
      obtain ⟨f', hf', -⟩ := (hstop c c' hc).exists_fail hf
      obtain ⟨b, d', hok', -, hd⟩ := (hitem c c' hc).exists_ok hok
      rw [manyTillLoop, hf', hok', hlabel]
      simp only [(K.offset_iff hd hc).mp hstill, if_true]
      exact .interrupted (.stalled (K.pos hc))
  | case6 c done f hf a d hok hmoved =>
      obtain ⟨f', hf', -⟩ := (hstop c c' hc).exists_fail hf
      obtain ⟨b, d', hok', -, hd⟩ := (hitem c c' hc).exists_ok hok
      rw [manyTillLoop, hf', hok', hlabel]
      simp only [mt (K.offset_iff hd hc).mpr hmoved, if_false]
      exact .interrupted (.stalled (K.pos hc))
  | case7 c done f hf a d hok hmoved ch fuel ih =>
      obtain ⟨f', hf', -⟩ := (hstop c c' hc).exists_fail hf
      obtain ⟨b, d', hok', ht, hd⟩ := (hitem c c' hc).exists_ok hok
      conv => rhs; rw [manyTillLoop, hf', hok']
      simp only [mt (K.offset_iff hd hc).mpr hmoved, if_false]
      exact ih hd (.cons ht hdone)

end Outcome

namespace Cursor

variable {K : Tracking}

theorem readChar_related (test : Char → Bool) (e : Expectation) {c c' : Cursor}
    (hc : K.cursor c c') : Outcome.Related K Eq (c.readChar test e) (c'.readChar test e) := by
  unfold readChar
  rw [K.rest_eq hc]
  split
  · exact Outcome.Related.failAt hc .endOfInput
  · rename_i ch rest hrest
    split
    · have hskip := K.skip (u := [ch]) (r := rest) hc hrest
      have hd : c.skip [ch] = ⟨rest, c.offset + 1, c.pos.advanceChar ch⟩ := by
        simp [skip, hrest, Position.advance_cons]
      have hd' : c'.skip [ch] = ⟨rest, c'.offset + 1, c'.pos.advanceChar ch⟩ := by
        simp [skip, K.rest_eq hc, hrest, Position.advance_cons]
      rw [hd, hd'] at hskip
      exact .ok rfl hskip
    · exact Outcome.Related.failAt hc e

theorem readText_related (s : Text) {c c' : Cursor} (hc : K.cursor c c') :
    Outcome.Related K Eq (c.readText s) (c'.readText s) := by
  induction s generalizing c c' with
  | nil => exact .ok rfl hc
  | cons ch s ih => exact (readChar_related _ _ hc).andThen fun _ _ _ _ _ hd => ih hd

end Cursor

/-! ## Parsers -/

/-- Judgements that agree up to related values. -/
inductive Verdict.Related {α β : Type} (T : α → β → Prop) : Verdict α → Verdict β → Prop where
  | accept {a : α} {b : β} (h : T a b) : Related T (.accept a) (.accept b)
  | reject (e : Expectation) : Related T (.reject e) (.reject e)
  | interrupt (why : Interruption) (h : ∀ loop label p, why ≠ .stalled loop label p) :
    Related T (.interrupt why) (.interrupt why)

variable {N : Type} {R : N → Type}

/-- Parsers that are built alike.  The relation `S` is what calls of the nonterminals have in
common. -/
inductive Parser.Related (K : Tracking) (S : (n : N) → R n → R n → Prop) :
    {α β : Type} → (α → β → Prop) → Parser N R α → Parser N R β → Prop where
  | pure {α β : Type} {T : α → β → Prop} {a : α} {b : β} (h : T a b) :
    Related K S T (.pure a) (.pure b)
  | fail {α β : Type} {T : α → β → Prop} (e : Expectation) : Related K S T (.fail e) (.fail e)
  | anyChar : Related K S Eq .anyChar .anyChar
  | char (c : Char) : Related K S Eq (.char c) (.char c)
  | satisfy (description : String) (test : Char → Bool) :
    Related K S Eq (.satisfy description test) (.satisfy description test)
  | text (s : Text) : Related K S Eq (.text s) (.text s)
  | spanning (test : Char → Bool) : Related K S Eq (.spanning test) (.spanning test)
  | eof : Related K S Eq .eof .eof
  | refine {α β γ δ : Type} {T : α → β → Prop} {U : γ → δ → Prop} {p : Parser N R α}
    {q : Parser N R β} {j : α → Verdict γ} {j' : β → Verdict δ} (h : Related K S T p q)
    (hj : ∀ a b, T a b → Verdict.Related U (j a) (j' b)) :
    Related K S U (.refine p j) (.refine q j')
  | bind {α β γ δ : Type} {T : α → β → Prop} {U : γ → δ → Prop} {p : Parser N R α}
    {q : Parser N R β} {f : α → Parser N R γ} {g : β → Parser N R δ} (h : Related K S T p q)
    (hf : ∀ a b, T a b → Related K S U (f a) (g b)) : Related K S U (.bind p f) (.bind q g)
  | alternatives {α β : Type} {T : α → β → Prop} {n : Nat} {p : Parser N R α} {q : Parser N R β}
    {ps : Fin n → Parser N R α} {qs : Fin n → Parser N R β} (h : Related K S T p q)
    (hs : ∀ i, Related K S T (ps i) (qs i)) :
    Related K S T (.alternatives p ps) (.alternatives q qs)
  | many {α β : Type} {T : α → β → Prop} {p : Parser N R α} {q : Parser N R β}
    (h : Related K S T p q) : Related K S (List.Forall₂ T) (.many p) (.many q)
  | manyTill {α β γ δ : Type} {T : α → β → Prop} {U : γ → δ → Prop} {p : Parser N R α}
    {q : Parser N R β} {stop : Parser N R γ} {stop' : Parser N R δ} (h : Related K S T p q)
    (hstop : Related K S U stop stop') :
    Related K S (List.Forall₂ T) (.manyTill p stop) (.manyTill q stop')
  | located {α β : Type} {T : α → β → Prop} {p : Parser N R α} {q : Parser N R β}
    (h : Related K S T p q) : Related K S (K.Places T) (.located p) (.located q)
  | named {α β : Type} {T : α → β → Prop} {p : Parser N R α} {q : Parser N R β} (name : String)
    (h : Related K S T p q) : Related K S T (.named name p) (.named name q)
  | call (n : N) : Related K S (S n) (.call n) (.call n)
  | mono {α β : Type} {T U : α → β → Prop} {p : Parser N R α} {q : Parser N R β}
    (h : Related K S T p q) (hu : ∀ a b, T a b → U a b) : Related K S U p q

namespace Parser

variable {K : Tracking} {S : (n : N) → R n → R n → Prop} {α β γ δ : Type}

/-- Parsers that are built alike have the same name. -/
theorem Related.name_eq {T : α → β → Prop} {p : Parser N R α} {q : Parser N R β}
    (h : Related K S T p q) : p.name = q.name := by
  induction h with
  | refine h hj ih => exact ih
  | bind h hf ih _ => exact ih
  | alternatives h hs ih ihs => simp only [name, ih, ihs]
  | many h ih => rw [name, name, ih]
  | manyTill h hstop ih _ => rw [name, name, ih]
  | located h ih => exact ih
  | mono h hu ih => exact ih
  | _ => rfl

theorem Related.label_eq {T : α → β → Prop} {p : Parser N R α} {q : Parser N R β}
    (h : Related K S T p q) : p.label = q.label := by
  rw [label, label, h.name_eq]

/-- Parsers that are built alike end alike, from related cursors and with related calls. -/
theorem eval_related {call call' : (n : N) → Cursor → Outcome (R n)}
    (hcall : ∀ n c c', K.cursor c c' → Outcome.Related K (S n) (call n c) (call' n c'))
    (source : String) {T : α → β → Prop} {p : Parser N R α} {q : Parser N R β}
    (h : Related K S T p q) {c c' : Cursor} (hc : K.cursor c c') :
    Outcome.Related K T (p.eval call source c) (q.eval call' source c') := by
  induction h generalizing c c' with
  | pure h => exact .ok h hc
  | fail e => exact Outcome.Related.failAt hc e
  | anyChar => exact Cursor.readChar_related _ _ hc
  | char ch => exact Cursor.readChar_related _ _ hc
  | satisfy description test => exact Cursor.readChar_related _ _ hc
  | text s =>
      exact (Cursor.readText_related s hc).andThen fun _ _ _ _ _ hd => .ok rfl hd
  | spanning test =>
      unfold eval
      rw [K.rest_eq hc]
      exact .ok rfl (K.skip hc (List.takeWhile_append_dropWhile (p := test)).symm)
  | eof =>
      unfold eval Cursor.atEnd
      rw [K.rest_eq hc]
      split
      · exact .ok rfl hc
      · exact Outcome.Related.failAt hc .endOfInput
  | @refine _ _ _ _ _ _ _ _ j j' h hj ih =>
      refine (ih hc).andThen fun a b d d' ht hd => ?_
      have hv := hj a b ht
      generalize j a = v at hv
      generalize j' b = v' at hv
      cases hv with
      | accept hu => exact .ok hu hd
      | reject e => exact Outcome.Related.failAt hc e
      | interrupt why hw => exact .interrupted (.other _ hw)
  | bind h hf ih ihf => exact (ih hc).andThen fun a b d d' ht hd => ihf a b ht hd
  | alternatives h hs ih ihs =>
      exact Outcome.choose_rel (fun _ _ _ _ => Outcome.Related.orElse) (ih hc) fun i => ihs i hc
  | many h ih =>
      unfold eval
      rw [K.rest_eq hc]
      exact Outcome.manyLoop_related h.label_eq (fun c c' hc => ih hc) _ hc .nil
  | manyTill h hstop ih ihstop =>
      unfold eval
      rw [K.rest_eq hc]
      exact Outcome.manyTillLoop_related h.label_eq (fun c c' hc => ih hc)
        (fun c c' hc => ihstop hc) _ hc .nil
  | located h ih =>
      exact (ih hc).andThen fun a b d d' ht hd =>
        .ok ⟨⟨rfl, K.pos hc, K.pos hd⟩, ht⟩ hd
  | named name h ih => exact ih hc
  | call n => exact hcall n c c' hc
  | mono h hu ih => exact (ih hc).mono hu

/-! ## Derived parsers -/

theorem Related.map {T : α → β → Prop} {U : γ → δ → Prop} {p : Parser N R α}
    {q : Parser N R β} (h : Related K S T p q) {f : α → γ} {g : β → δ}
    (hf : ∀ a b, T a b → U (f a) (g b)) : Related K S U (p.map f) (q.map g) :=
  .refine h fun a b ht => .accept (hf a b ht)

theorem Related.guard {T : α → β → Prop} {p : Parser N R α} {q : Parser N R β}
    (h : Related K S T p q) {test : α → Bool} {test' : β → Bool} (e : Expectation)
    (ht : ∀ a b, T a b → test a = test' b) : Related K S T (p.guard test e) (q.guard test' e) := by
  refine .refine h fun a b hab => ?_
  rw [ht a b hab]
  cases test' b with
  | true => exact .accept hab
  | false => exact .reject e

theorem Related.andThen {T : α → β → Prop} {U : γ → δ → Prop} {p : Parser N R α}
    {q : Parser N R β} {p' : Parser N R γ} {q' : Parser N R δ} (h : Related K S T p q)
    (h' : Related K S U p' q') : Related K S U (p.andThen p') (q.andThen q') := by
  unfold Parser.andThen
  rw [h.label_eq, h'.label_eq]
  exact .named _ (.bind h fun _ _ _ => h')

theorem Related.followedBy {T : α → β → Prop} {U : γ → δ → Prop} {p : Parser N R α}
    {q : Parser N R β} {p' : Parser N R γ} {q' : Parser N R δ} (h : Related K S T p q)
    (h' : Related K S U p' q') : Related K S T (p.followedBy p') (q.followedBy q') := by
  unfold Parser.followedBy
  rw [h.label_eq, h'.label_eq]
  exact .named _ (.bind h fun a b hab => h'.map fun _ _ _ => hab)

theorem Related.many1 {T : α → β → Prop} {p : Parser N R α} {q : Parser N R β}
    (h : Related K S T p q) : Related K S (List.Forall₂ T) p.many1 q.many1 :=
  .named _ (.bind h fun _ _ hab => h.many.map fun _ _ hs => .cons hab hs)

theorem Related.orElse {T : α → β → Prop} {p p' : Parser N R α} {q q' : Parser N R β}
    (h : Related K S T p q) (h' : Related K S T p' q') :
    Related K S T (p.orElse p') (q.orElse q') :=
  .alternatives h fun _ => h'

theorem Related.describe {T : α → β → Prop} {p : Parser N R α} {q : Parser N R β}
    (description : String) (h : Related K S T p q) :
    Related K S T (p.describe description) (q.describe description) :=
  .named _ (h.orElse (.fail _))

/-- A choice among parsers that are related to themselves. -/
theorem Related.choice {T : α → α → Prop} {ps : List (Parser N R α)}
    (h : ∀ p ∈ ps, Related K S T p p) : Related K S T (choice ps) (choice ps) := by
  cases ps with
  | nil => exact .fail _
  | cons p ps =>
      exact .alternatives (h p List.mem_cons_self) fun i => h _ (List.mem_cons_of_mem p (ps.get_mem i))

end Parser

/-! ## Rule systems -/

namespace Rules

variable {K : Tracking} {S : (n : N) → R n → R n → Prop} {rules : Rules N R} {α β : Type}

/-- Calls end alike when the rules are built alike. -/
theorem call_related (hrules : ∀ n, Parser.Related K S (S n) (rules n) (rules n)) (source : String)
    (ceiling : Nat) (n : N) {c c' : Cursor} (hc : K.cursor c c') :
    Outcome.Related K (S n) (rules.call source ceiling n c) (rules.call source ceiling n c') := by
  induction ceiling generalizing n c c' with
  | zero => exact .interrupted (.other _ fun _ _ _ h => by cases h)
  | succ ceiling ih => exact Parser.eval_related (fun n _ _ hc => ih n hc) source (hrules n) hc

/-- Parsers that are built alike end alike over rules that are. -/
theorem run_related (hrules : ∀ n, Parser.Related K S (S n) (rules n) (rules n)) (ceiling : Nat)
    (source : String) {T : α → β → Prop} {p : Parser N R α} {q : Parser N R β}
    (h : Parser.Related K S T p q) {c c' : Cursor} (hc : K.cursor c c') :
    Outcome.Related K T (rules.run ceiling source p c) (rules.run ceiling source q c') :=
  Parser.eval_related (fun n _ _ hc => call_related hrules source ceiling n hc) source h hc

end Rules

end PieSyntax
