import PieSyntax.Proofs.Balance
import PieSyntax.Proofs.Offsets
import PieSyntax.Reading.Source

/-!
# The deepest parenthesis

The scan behind the report on nesting that is too deep looks at characters, not at tokens.  Where it
stands in line comments, how many parentheses are open and which of them is the deepest are said here
of the offsets of a text, without a scan.  The invariant of the scan (`Tracks`) ties its state after
`i` characters to what is said of offset `i`, and one step keeps it.

Comments are the weak point.  A line comment starts at a semicolon, but not at that of the mark `#;`,
which comments out a datum.  The scan takes every semicolon for the start of a line comment.  So it
finds the deepest parenthesis of the text as it sees it, and that is the deepest one in fact as long
as no parenthesis follows such a mark on its line.

## Main results

* `Tracks.step`, `tracks_foldl` — what the scan knows after each character.
* `deepestOpenParen_dichotomy` — the scan finds the deepest parenthesis outside of what it takes for
  comments.
* `deepestOpenParen_isDeepest` — which one that is, and when it is the deepest one of the text.
-/

namespace PieSyntax

/-! ## Line comments -/

/-- Every semicolon outside of line comments starts one. -/
def anySemicolon (_before : Text) : Bool := true

/-- A semicolon starts a line comment unless it completes the mark of a datum comment. -/
def unlessMark (before : Text) : Bool := before.getLast? ≠ some '#'

section Offsets

variable (starts : Text → Bool) (s : Text)

/-- The offset is within a line comment: on its line, somewhere before it, there is a semicolon that
starts one, as told from the text before the semicolon. -/
def InLineComment (i : Nat) : Prop :=
  ∃ j < i, s[j]? = some ';' ∧ starts (s.take j) = true ∧ '\n' ∉ (s.take i).drop j

instance (i : Nat) : Decidable (InLineComment starts s i) := by
  unfold InLineComment
  infer_instance

/-- The text before the offset without what stands in line comments. -/
def outsideComments (i : Nat) : Text :=
  (List.range i).filterMap fun j => if InLineComment starts s j then none else s[j]?

/-- How many parentheses are open before the offset, outside of line comments. -/
def nestingAt (i : Nat) : Int := depth (outsideComments starts s i)

/-- A parenthesis is opened at the offset, outside of line comments. -/
def OpensAt (i : Nat) : Prop := s[i]? = some '(' ∧ ¬ InLineComment starts s i

instance (i : Nat) : Decidable (OpensAt starts s i) :=
  inferInstanceAs (Decidable (_ ∧ _))

/-- At no other opening parenthesis are more parentheses open, and at none before it as many. -/
structure IsDeepest (i : Nat) : Prop where
  opens : OpensAt starts s i
  le : ∀ j, OpensAt starts s j → nestingAt starts s (j + 1) ≤ nestingAt starts s (i + 1)
  first : ∀ j, OpensAt starts s j → j < i → nestingAt starts s (j + 1) < nestingAt starts s (i + 1)

end Offsets

/-! ## One more character -/

section Step

variable {starts : Text → Bool} {s : Text} {i : Nat} {ch : Char}

theorem not_inLineComment_zero : ¬ InLineComment starts s 0 := by
  rintro ⟨j, hj, -⟩
  omega

/-- A newline ends a line comment, and a semicolon may start one. -/
theorem inLineComment_succ (hch : s[i]? = some ch) :
    InLineComment starts s (i + 1) ↔
      ch ≠ '\n' ∧ (InLineComment starts s i ∨ ch = ';' ∧ starts (s.take i) = true) := by
  have htake : s.take (i + 1) = s.take i ++ [ch] := by
    rw [List.take_add_one, hch, Option.toList_some]
  have hlen : (s.take i).length = i := by
    have hlt := (List.getElem?_eq_some_iff.mp hch).1
    rw [List.length_take]
    omega
  constructor
  · rintro ⟨j, hj, hsemi, hstarts, hline⟩
    rw [htake, List.drop_append_of_le_length (by omega), List.mem_append, not_or,
      List.mem_singleton] at hline
    refine ⟨fun h => hline.2 h.symm, ?_⟩
    rcases Nat.lt_succ_iff_lt_or_eq.mp hj with hlt | rfl
    · exact Or.inl ⟨j, hlt, hsemi, hstarts, hline.1⟩
    · exact Or.inr ⟨Option.some.inj (hch.symm.trans hsemi), hstarts⟩
  · rintro ⟨hnewline, ⟨j, hj, hsemi, hstarts, hline⟩ | ⟨rfl, hstarts⟩⟩
    · refine ⟨j, by omega, hsemi, hstarts, ?_⟩
      rw [htake, List.drop_append_of_le_length (by omega), List.mem_append, not_or,
        List.mem_singleton]
      exact ⟨hline, fun h => hnewline h.symm⟩
    · refine ⟨i, by omega, hch, hstarts, ?_⟩
      rw [htake, List.drop_append_of_le_length (by omega), List.drop_eq_nil_of_le (by omega)]
      decide

theorem depth_singleton_of_ne (hopen : ch ≠ '(') (hclose : ch ≠ ')') : depth [ch] = 0 :=
  depth_of_not_mem (fun h => hopen (List.mem_singleton.mp h).symm)
    fun h => hclose (List.mem_singleton.mp h).symm

/-- A parenthesis within a line comment is not counted. -/
theorem nestingAt_succ (hch : s[i]? = some ch) :
    nestingAt starts s (i + 1) =
      nestingAt starts s i + if InLineComment starts s i then 0 else depth [ch] := by
  rw [nestingAt, nestingAt, outsideComments, List.range_succ, List.filterMap_append, depth_append,
    ← outsideComments]
  split_ifs with h <;> simp [h, hch]

theorem OpensAt.nestingAt_succ (h : OpensAt starts s i) :
    nestingAt starts s (i + 1) = nestingAt starts s i + 1 := by
  rw [PieSyntax.nestingAt_succ h.1, if_neg h.2]
  rfl

theorem OpensAt.lt_length (h : OpensAt starts s i) : i < s.length :=
  (List.getElem?_eq_some_iff.mp h.1).1

theorem nestingAt_zero : nestingAt starts s 0 = 0 := rfl

end Step

/-! ## One step of the scan -/

namespace NestingScan

variable (st : NestingScan) (ch : Char)

@[simp] theorem step_pos : (st.step ch).pos = st.pos.advanceChar ch := by
  unfold step
  split_ifs <;> rfl

theorem step_inComment :
    (st.step ch).inComment = true ↔ ch ≠ '\n' ∧ (st.inComment = true ∨ ch = ';') := by
  unfold step
  split_ifs <;> simp_all

theorem step_depth :
    (st.step ch).depth = st.depth + if st.inComment = true then 0 else PieSyntax.depth [ch] := by
  unfold step
  split_ifs with hin hsemi hopen hdeeper hclose
  · exact (Int.add_zero _).symm
  · rw [hsemi]
    exact (Int.add_zero _).symm
  · rw [hopen]
    rfl
  · rw [hopen]
    rfl
  · rw [hclose]
    rfl
  · rw [depth_singleton_of_ne hopen hclose, Int.add_zero]

variable {st ch}

/-- Outside of comments a parenthesis that is deeper than all before it is remembered. -/
theorem step_of_deeper (hin : st.inComment = false) (hlt : st.deepest < st.depth + 1) :
    (st.step '(').deepest = st.depth + 1 ∧ (st.step '(').deepestPos = st.pos := by
  simp [step, hin, hlt]

/-- Any other character leaves the deepest parenthesis as it is. -/
theorem step_of_not_deeper
    (h : ¬ (st.inComment = false ∧ ch = '(' ∧ st.deepest < st.depth + 1)) :
    (st.step ch).deepest = st.deepest ∧ (st.step ch).deepestPos = st.deepestPos := by
  unfold step
  split_ifs with hin hsemi hopen hdeeper hclose
  · exact ⟨rfl, rfl⟩
  · exact ⟨rfl, rfl⟩
  · exact absurd ⟨Bool.not_eq_true _ ▸ hin, hopen, hdeeper⟩ h
  · exact ⟨rfl, rfl⟩
  · exact ⟨rfl, rfl⟩
  · exact ⟨rfl, rfl⟩

end NestingScan

/-! ## The scan -/

/-- What the scan knows after `i` characters of `s`, which stands at the position `p`. -/
structure Tracks (p : Position) (s : Text) (i : Nat) (st : NestingScan) : Prop where
  pos : st.pos = p.advance (s.take i)
  depth : st.depth = nestingAt anySemicolon s i
  inComment : st.inComment = true ↔ InLineComment anySemicolon s i
  /-- No parenthesis so far is deeper. -/
  bound : ∀ j < i, OpensAt anySemicolon s j → nestingAt anySemicolon s (j + 1) ≤ st.deepest
  /-- The first of the deepest ones is remembered, unless none lies deeper than the start. -/
  found : st.deepest = 0 ∧ st.deepestPos = p ∨
    0 < st.deepest ∧ ∃ j < i, OpensAt anySemicolon s j ∧
      nestingAt anySemicolon s (j + 1) = st.deepest ∧ st.deepestPos = p.advance (s.take j) ∧
      ∀ j' < j, OpensAt anySemicolon s j' → nestingAt anySemicolon s (j' + 1) < st.deepest

namespace Tracks

variable {p : Position} {s : Text} {i : Nat} {st : NestingScan} {ch : Char}

theorem start (p : Position) (s : Text) : Tracks p s 0 (.start p) where
  pos := (Position.advance_nil p).symm
  depth := nestingAt_zero.symm
  inComment := iff_of_false Bool.false_ne_true not_inLineComment_zero
  bound j hj := absurd hj (Nat.not_lt_zero j)
  found := Or.inl ⟨rfl, rfl⟩

theorem deepest_nonneg (h : Tracks p s i st) : 0 ≤ st.deepest := by
  rcases h.found with ⟨hzero, -⟩ | ⟨hpos, -⟩ <;> omega

/-- The step is deeper than all before just where a parenthesis is opened that is. -/
theorem deeper_iff (h : Tracks p s i st) (hch : s[i]? = some ch) :
    (st.inComment = false ∧ ch = '(' ∧ st.deepest < st.depth + 1) ↔
      OpensAt anySemicolon s i ∧ st.deepest < nestingAt anySemicolon s (i + 1) := by
  have hin : st.inComment = false ↔ ¬ InLineComment anySemicolon s i := by
    rw [← Bool.not_eq_true, h.inComment]
  rw [hin, h.depth]
  constructor
  · rintro ⟨hout, rfl, hlt⟩
    have hopens : OpensAt anySemicolon s i := ⟨hch, hout⟩
    exact ⟨hopens, by rw [hopens.nestingAt_succ]; exact hlt⟩
  · rintro ⟨hopens, hlt⟩
    rw [hopens.nestingAt_succ] at hlt
    exact ⟨hopens.2, Option.some.inj (hch.symm.trans hopens.1), hlt⟩

/-- One step takes in one character. -/
theorem step (h : Tracks p s i st) (hch : s[i]? = some ch) : Tracks p s (i + 1) (st.step ch) := by
  have hpos : (st.step ch).pos = p.advance (s.take (i + 1)) := by
    rw [NestingScan.step_pos, h.pos, List.take_add_one, hch, Option.toList_some,
      Position.advance_append, Position.advance_cons, Position.advance_nil]
  have hdepth : (st.step ch).depth = nestingAt anySemicolon s (i + 1) := by
    simp only [NestingScan.step_depth, nestingAt_succ hch, h.depth, h.inComment]
  have hcomment : (st.step ch).inComment = true ↔ InLineComment anySemicolon s (i + 1) := by
    simp only [NestingScan.step_inComment, inLineComment_succ hch, h.inComment, anySemicolon,
      and_true]
  -- Only a parenthesis that is deeper than all before it changes what is remembered.
  by_cases hdeeper : st.inComment = false ∧ ch = '(' ∧ st.deepest < st.depth + 1
  · obtain ⟨hopens, hlt⟩ := (h.deeper_iff hch).mp hdeeper
    obtain ⟨hin, rfl, hlt'⟩ := hdeeper
    obtain ⟨hdeepest, hplace⟩ := NestingScan.step_of_deeper hin hlt'
    rw [h.depth, ← hopens.nestingAt_succ] at hdeepest
    refine ⟨hpos, hdepth, hcomment, fun j hj hj' => ?_, Or.inr ?_⟩
    · rw [hdeepest]
      rcases Nat.lt_succ_iff_lt_or_eq.mp hj with hji | rfl
      · exact Int.le_of_lt (Int.lt_of_le_of_lt (h.bound j hji hj') hlt)
      · exact Int.le_refl _
    · rw [hdeepest, hplace]
      exact ⟨Int.lt_of_le_of_lt h.deepest_nonneg hlt, i, Nat.lt_succ_self i, hopens, rfl, h.pos,
        fun j hj hj' => Int.lt_of_le_of_lt (h.bound j hj hj') hlt⟩
  · obtain ⟨hdeepest, hplace⟩ := NestingScan.step_of_not_deeper hdeeper
    rw [h.deeper_iff hch, not_and, Int.not_lt] at hdeeper
    refine ⟨hpos, hdepth, hcomment, fun j hj hj' => ?_, ?_⟩
    · rw [hdeepest]
      rcases Nat.lt_succ_iff_lt_or_eq.mp hj with hji | rfl
      · exact h.bound j hji hj'
      · exact hdeeper hj'
    · rw [hdeepest, hplace]
      exact h.found.imp_right fun ⟨hlt, j, hj, hfound⟩ => ⟨hlt, j, Nat.lt_succ_of_lt hj, hfound⟩

end Tracks

/-- The scan of a text knows the first characters after as many steps. -/
theorem tracks_foldl (p : Position) (s : Text) {i : Nat} (hi : i ≤ s.length) :
    Tracks p s i ((s.take i).foldl NestingScan.step (.start p)) := by
  induction i with
  | zero => exact Tracks.start p s
  | succ i ih =>
      have hch : s[i]? = some s[i] := List.getElem?_eq_getElem hi
      rw [List.take_add_one, hch, Option.toList_some, List.foldl_append]
      exact (ih (Nat.le_of_succ_le hi)).step hch

/-- The scan finds the first of the deepest parentheses outside of what it takes for comments, unless
none of these is deeper than where it started. -/
theorem deepestOpenParen_dichotomy (c : Cursor) :
    (∃ i, IsDeepest anySemicolon c.rest i ∧ 0 < nestingAt anySemicolon c.rest (i + 1) ∧
      deepestOpenParen c = c.pos.advance (c.rest.take i)) ∨
    (∀ i, OpensAt anySemicolon c.rest i → nestingAt anySemicolon c.rest (i + 1) ≤ 0) ∧
      deepestOpenParen c = c.pos := by
  have h := tracks_foldl c.pos c.rest (Nat.le_refl _)
  rw [List.take_length] at h
  rcases h.found with ⟨hzero, hplace⟩ | ⟨hlt, i, -, hopens, hdeepest, hplace, hfirst⟩
  · refine Or.inr ⟨fun i hi => ?_, hplace⟩
    rw [← hzero]
    exact h.bound i hi.lt_length hi
  · refine Or.inl ⟨i, ⟨hopens, fun j hj => ?_, fun j hj hlt => ?_⟩, hdeepest ▸ hlt, hplace⟩
    · rw [hdeepest]
      exact h.bound j hj.lt_length hj
    · rw [hdeepest]
      exact hfirst j hlt hj

/-! ## The mark of a datum comment -/

/-- Every parenthesis that the scan takes to be in a comment is within a line comment: none follows
the mark of a datum comment on its line. -/
def OmitsOnlyComments (s : Text) : Prop :=
  ∀ i < s.length, s[i]? = some '(' ∨ s[i]? = some ')' → InLineComment anySemicolon s i →
    InLineComment unlessMark s i

instance (s : Text) : Decidable (OmitsOnlyComments s) := by
  unfold OmitsOnlyComments
  infer_instance

theorem InLineComment.of_starts {starts : Text → Bool} {s : Text} {i : Nat}
    (h : InLineComment starts s i) : InLineComment anySemicolon s i := by
  obtain ⟨j, hj, hsemi, -, hline⟩ := h
  exact ⟨j, hj, hsemi, rfl, hline⟩

namespace OmitsOnlyComments

variable {s : Text} {i : Nat}

theorem inLineComment_iff (h : OmitsOnlyComments s) (hi : s[i]? = some '(' ∨ s[i]? = some ')') :
    InLineComment unlessMark s i ↔ InLineComment anySemicolon s i := by
  refine ⟨InLineComment.of_starts, h i ?_ hi⟩
  rcases hi with hi | hi <;> exact (List.getElem?_eq_some_iff.mp hi).1

theorem opensAt_iff (h : OmitsOnlyComments s) : OpensAt unlessMark s i ↔ OpensAt anySemicolon s i :=
  and_congr_right fun hi => not_congr (h.inLineComment_iff (Or.inl hi))

/-- As many parentheses are open. -/
theorem nestingAt_eq (h : OmitsOnlyComments s) (hi : i ≤ s.length) :
    nestingAt unlessMark s i = nestingAt anySemicolon s i := by
  induction i with
  | zero => rfl
  | succ i ih =>
      have hch : s[i]? = some s[i] := List.getElem?_eq_getElem hi
      rw [nestingAt_succ hch, nestingAt_succ hch, ih (Nat.le_of_succ_le hi)]
      by_cases hparen : s[i]? = some '(' ∨ s[i]? = some ')'
      · simp only [h.inLineComment_iff hparen]
      · have hzero : depth [s[i]] = 0 := by
          rw [hch, not_or] at hparen
          exact depth_singleton_of_ne (fun hopen => hparen.1 (congrArg some hopen))
            fun hclose => hparen.2 (congrArg some hclose)
        simp only [hzero, ite_self]

/-- The deepest parenthesis that the scan can see is the deepest one of the text. -/
theorem isDeepest (h : OmitsOnlyComments s) (hi : IsDeepest anySemicolon s i) :
    IsDeepest unlessMark s i := by
  have hnesting : ∀ {j}, OpensAt anySemicolon s j →
      nestingAt unlessMark s (j + 1) = nestingAt anySemicolon s (j + 1) :=
    fun hj => h.nestingAt_eq hj.lt_length
  refine ⟨h.opensAt_iff.mpr hi.opens, fun j hj => ?_, fun j hj hlt => ?_⟩
  · have hj' := h.opensAt_iff.mp hj
    rw [hnesting hj', hnesting hi.opens]
    exact hi.le j hj'
  · have hj' := h.opensAt_iff.mp hj
    rw [hnesting hj', hnesting hi.opens]
    exact hi.first j hj' hlt

end OmitsOnlyComments

/-! ## The position in the text -/

/-- In any text the scan finds the first of the deepest parentheses outside of what it takes for
comments, if there is one that is deeper than where the scan started.  Where it leaves out nothing but
line comments, some parenthesis is opened outside of these, and never are more closed than were
opened, that is the first of the deepest parentheses of the text. -/
theorem deepestOpenParen_isDeepest (text : Text) (c : Cursor) (hc : c.At text) :
    ((∃ i, IsDeepest anySemicolon c.rest i ∧ 0 < nestingAt anySemicolon c.rest (i + 1) ∧
        deepestOpenParen c = positionOf text (c.offset + i)) ∨
      (∀ i, OpensAt anySemicolon c.rest i → nestingAt anySemicolon c.rest (i + 1) ≤ 0) ∧
        deepestOpenParen c = c.pos) ∧
    (OmitsOnlyComments c.rest → (∃ i, OpensAt unlessMark c.rest i) →
      (∀ i ≤ c.rest.length, 0 ≤ nestingAt unlessMark c.rest i) →
        ∃ i, IsDeepest unlessMark c.rest i ∧
          deepestOpenParen c = positionOf text (c.offset + i)) := by
  have hscan := deepestOpenParen_dichotomy c
  simp only [hc.advance_take] at hscan
  refine ⟨hscan, fun homits ⟨i, hi⟩ hsane => ?_⟩
  rcases hscan with ⟨j, hdeepest, -, hplace⟩ | ⟨hnone, -⟩
  · exact ⟨j, homits.isDeepest hdeepest, hplace⟩
  · -- A parenthesis that is opened lies deeper than where the scan started.
    have hopens := homits.opensAt_iff.mp hi
    have hle := hnone i hopens
    have hbefore := hsane i (Nat.le_of_lt hi.lt_length)
    rw [homits.nestingAt_eq (Nat.le_of_lt hi.lt_length)] at hbefore
    rw [hopens.nestingAt_succ] at hle
    omega

/-- Parentheses in a line comment, and deeper ones after it and after a mark with a datum. -/
def nestedRest : Text := "a ; ((((\n (b (c))\n #;d\n (e (f) (g".toList

/-- The deepest parenthesis after the first name is the one before `c`, the first of three. -/
theorem deepestOpenParen_nestedRest :
    ∃ i, IsDeepest unlessMark (nestedRest.drop 2) i ∧
      deepestOpenParen ⟨nestedRest.drop 2, 2, ⟨1, 3⟩⟩ = positionOf nestedRest (2 + i) ∧
      positionOf nestedRest (2 + i) = ⟨2, 5⟩ := by
  obtain ⟨i, hi, hplace⟩ := (deepestOpenParen_isDeepest nestedRest ⟨nestedRest.drop 2, 2, ⟨1, 3⟩⟩
    (by decide)).2 (by decide +kernel) ⟨8, by decide⟩ (by decide +kernel)
  exact ⟨i, hi, hplace, hplace ▸ by decide⟩

/-- The scan takes the mark of a datum comment for the start of a line comment: it does not find the
one parenthesis of this text, which stands in the datum. -/
theorem deepestOpenParen_misses_marked :
    ¬ ∀ (text : Text) (c : Cursor), c.At text → (∃ i, OpensAt unlessMark c.rest i) →
      (∀ i ≤ c.rest.length, 0 ≤ nestingAt unlessMark c.rest i) →
        ∃ i, IsDeepest unlessMark c.rest i ∧
          deepestOpenParen c = positionOf text (c.offset + i) := by
  intro h
  obtain ⟨i, hi, hplace⟩ := h "#;(a)".toList (.start "#;(a)".toList) (Cursor.start_at _)
    ⟨2, by decide⟩ (by decide)
  have hstart : deepestOpenParen (.start "#;(a)".toList) = positionOf "#;(a)".toList 0 := by decide
  have hlt := hi.opens.lt_length
  have hzero : 0 = (Cursor.start "#;(a)".toList).offset + i :=
    (positionOf_eq_iff (Nat.zero_le _) (by simpa [Cursor.start] using Nat.le_of_lt hlt)).mp
      (hstart.symm.trans hplace)
  obtain rfl : i = 0 := by simpa [Cursor.start] using hzero.symm
  exact absurd hi.opens (by decide)

end PieSyntax
