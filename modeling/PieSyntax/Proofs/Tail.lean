import PieSyntax.Proofs.Success
import PieSyntax.Proofs.Word

/-!
# Runs that do not depend on what comes later

A parser reads a part of the text and leaves a tail.  Here the same run is looked at with several
tails at once: under a given ceiling it is cut off with all of them, or it goes the same way with all
of them.  So it is known for a part of a text that nesting is too deep there, or is not, wherever the
part stands.

A token swallows the trivia after it, and those may well go on in the tail.  `Reads t p c a m` leaves
them open: `p` returns `a` after its token ends at `m`, and ends where `t` ends from there.

## Main results

* `Reads.bind`, `Reads.orElse_left`, `Returns.many_cons`, … — a parser reads what its parts read.
* `Reads.close` — what a parser reads, with the trivia after it.
-/

namespace PieSyntax

/-- The cursor with a longer text to read. -/
def Cursor.before (c : Cursor) (v : Text) : Cursor := ⟨c.rest ++ v, c.offset, c.pos⟩

@[simp] theorem Cursor.before_rest (c : Cursor) (v : Text) : (c.before v).rest = c.rest ++ v := rfl

@[simp] theorem Cursor.before_offset (c : Cursor) (v : Text) : (c.before v).offset = c.offset := rfl

@[simp] theorem Cursor.before_pos (c : Cursor) (v : Text) : (c.before v).pos = c.pos := rfl

@[simp] theorem Cursor.before_nil (c : Cursor) : c.before [] = c := by
  simp [Cursor.before]

theorem Cursor.before_skip {c : Cursor} {u r : Text} (h : c.rest = u ++ r) (v : Text) :
    (c.skip u).before v = (c.before v).skip u := by
  simp [Cursor.before, Cursor.skip, h]

namespace Outcome

variable {α β : Type}

/-- The outcome goes the way of `t`: it is a success with `a` if `t` is one, and cut off if `t`
is. -/
structure Follows (o : Outcome α) (a : α) (t : Outcome Unit) : Prop where
  ok : ∀ n, t = .ok () n → o = .ok a n
  tooDeep : t = .interrupted .tooDeep → o = .interrupted .tooDeep

theorem Follows.andThen {o : Outcome α} {a : α} {t : Outcome Unit} (h : o.Follows a t)
    {k : α → Cursor → Outcome β} {b : β} (hk : ∀ n, k a n = .ok b n) :
    (o.andThen k).Follows b t := by
  constructor
  · intro n hn
    rw [h.ok n hn, andThen_ok, hk n]
  · intro ht
    rw [h.tooDeep ht, andThen_interrupted]

theorem Follows.orElse {o : Outcome α} {a : α} {t : Outcome Unit} (h : o.Follows a t)
    (k : Unit → Outcome α) : (o.orElse k).Follows a t := by
  constructor
  · intro n hn
    rw [h.ok n hn]
    rfl
  · intro ht
    rw [h.tooDeep ht]
    rfl

theorem Follows.fail_orElse {o : Outcome α} {a : α} {t : Outcome Unit} (h : o.Follows a t)
    (f : Failure) : ((Outcome.fail f).orElse fun _ => o).Follows a t := by
  constructor
  · intro n hn
    rw [h.ok n hn]
    rfl
  · intro ht
    rw [h.tooDeep ht]
    rfl

/-- The outcome is a failure if `t` is a success, and cut off if `t` is. -/
structure FailsAfter (o : Outcome α) (t : Outcome Unit) : Prop where
  fail : ∀ n, t = .ok () n → ∃ f, o = .fail f
  tooDeep : t = .interrupted .tooDeep → o = .interrupted .tooDeep

theorem Follows.reject {o : Outcome α} {a : α} {t : Outcome Unit} (h : o.Follows a t)
    {k : α → Cursor → Outcome β} {f : Failure} (hk : ∀ n, k a n = .fail f) :
    (o.andThen k).FailsAfter t := by
  constructor
  · intro n hn
    exact ⟨f, by rw [h.ok n hn, andThen_ok, hk n]⟩
  · intro ht
    rw [h.tooDeep ht, andThen_interrupted]

theorem FailsAfter.andThen {o : Outcome α} {t : Outcome Unit} (h : o.FailsAfter t)
    (k : α → Cursor → Outcome β) : (o.andThen k).FailsAfter t := by
  constructor
  · intro n hn
    obtain ⟨f, hf⟩ := h.fail n hn
    exact ⟨f, by rw [hf, andThen_fail]⟩
  · intro ht
    rw [h.tooDeep ht, andThen_interrupted]

theorem FailsAfter.orElse_fail {o : Outcome α} {t : Outcome Unit} (h : o.FailsAfter t)
    (g : Failure) : (o.orElse fun _ => .fail g).FailsAfter t := by
  constructor
  · intro n hn
    obtain ⟨f, hf⟩ := h.fail n hn
    exact ⟨f.furthest g, by rw [hf]; rfl⟩
  · intro ht
    rw [h.tooDeep ht]
    rfl

theorem FailsAfter.fail_orElse {o : Outcome α} {t : Outcome Unit} (h : o.FailsAfter t)
    (f : Failure) : ((Outcome.fail f).orElse fun _ => o).FailsAfter t := by
  constructor
  · intro n hn
    obtain ⟨g, hg⟩ := h.fail n hn
    exact ⟨f.furthest g, by rw [hg]; rfl⟩
  · intro ht
    rw [h.tooDeep ht]
    rfl

/-- What was rejected by the first alternative is read by the second. -/
theorem FailsAfter.orElse {o o' : Outcome α} {a : α} {t : Outcome Unit} (h : o.FailsAfter t)
    (h' : o'.Follows a t) : (o.orElse fun _ => o').Follows a t := by
  constructor
  · intro n hn
    obtain ⟨f, hf⟩ := h.fail n hn
    rw [hf, h'.ok n hn]
    rfl
  · intro ht
    rw [h.tooDeep ht]
    rfl

end Outcome

/-- The tails with which a run is looked at, and whether it may be cut off. -/
structure Tails where
  mem : Text → Prop
  cut : Prop

instance : CoeFun Tails fun _ => Text → Prop := ⟨Tails.mem⟩

namespace Tails

/-- The empty tail alone. -/
def empty (cut : Prop) : Tails := ⟨fun v => v = [], cut⟩

/-- A run with `need` levels of nesting is looked at under the ceiling `k`: it has room, unless it
may be cut off. -/
def Room (V : Tails) (need k : Nat) : Prop := V.cut ∨ need ≤ k

variable {V : Tails} {need need' k k' : Nat}

theorem Room.imp (h : V.Room need k) (himp : need ≤ k → need' ≤ k') : V.Room need' k' := by
  rcases h with h | h
  · exact Or.inl h
  · exact Or.inr (himp h)

end Tails

namespace Parser

variable {N : Type} {R : N → Type} {α β γ : Type}

/-- With all tails in `V` the run is cut off, if it may be, or with all of them it ends as `Q`
says. -/
def Settles (call : (n : N) → Cursor → Outcome (R n)) (source : String) (V : Tails)
    (p : Parser N R α) (c : Cursor) (Q : Text → Outcome α → Prop) : Prop :=
  (V.cut ∧ ∀ v, V v → p.eval call source (c.before v) = .interrupted .tooDeep) ∨
    ∀ v, V v → Q v (p.eval call source (c.before v))

/-- The parser reads `a` up to `m`, and then goes the way of `t`. -/
def Reads (call : (n : N) → Cursor → Outcome (R n)) (source : String) (V : Tails)
    (t : Parser N R Unit) (p : Parser N R α) (c : Cursor) (a : α) (m : Cursor) : Prop :=
  Settles call source V p c fun v o => o.Follows a (t.eval call source (m.before v))

/-- The parser returns `a` and ends at `d`. -/
abbrev Returns (call : (n : N) → Cursor → Outcome (R n)) (source : String) (V : Tails)
    (p : Parser N R α) (c : Cursor) (a : α) (d : Cursor) : Prop :=
  Reads call source V (.pure ()) p c a d

/-- The parser fails. -/
def Declines (call : (n : N) → Cursor → Outcome (R n)) (source : String) (V : Tails)
    (p : Parser N R α) (c : Cursor) : Prop :=
  Settles call source V p c fun _ o => ∃ f, o = .fail f

variable {call : (n : N) → Cursor → Outcome (R n)} {source : String} {V : Tails}
variable {t : Parser N R Unit} {p q : Parser N R α} {c d m : Cursor} {a : α} {b : β}

theorem Settles.mono {Q Q' : Text → Outcome α → Prop} (h : Settles call source V p c Q)
    (hq : ∀ v o, V v → Q v o → Q' v o) : Settles call source V p c Q' := by
  rcases h with h | h
  · exact Or.inl h
  · exact Or.inr fun v hv => hq v _ hv (h v hv)

/-- Nothing but its runs settles a parser. -/
theorem Settles.congr {Q : Text → Outcome α → Prop} (h : Settles call source V p c Q)
    (heq : p.eval call source = q.eval call source) : Settles call source V q c Q := by
  unfold Settles at h ⊢
  rwa [← heq]

/-- A parser that is cut off where `p` is settles as `p` does. -/
theorem Settles.through {q : Parser N R β} {P : Text → Outcome α → Prop}
    {Q : Text → Outcome β → Prop} (h : Settles call source V p c P)
    (hcut : ∀ c, p.eval call source c = .interrupted .tooDeep →
      q.eval call source c = .interrupted .tooDeep)
    (hq : ∀ v, P v (p.eval call source (c.before v)) → Q v (q.eval call source (c.before v))) :
    Settles call source V q c Q := by
  rcases h with ⟨hmay, h⟩ | h
  · exact Or.inl ⟨hmay, fun v hv => hcut _ (h v hv)⟩
  · exact Or.inr fun v hv => hq v (h v hv)

/-- A parser that is cut off where `p` is, and where `q` is after `p`, settles as both do. -/
theorem Settles.through_next {q : Parser N R β} {r : Parser N R γ} {P : Text → Outcome α → Prop}
    {Q : Text → Outcome β → Prop} {Q' : Text → Outcome γ → Prop}
    (hp : Settles call source V p c P) (hq : Settles call source V q d Q)
    (hcut : ∀ c, p.eval call source c = .interrupted .tooDeep →
      r.eval call source c = .interrupted .tooDeep)
    (hcut' : ∀ v, P v (p.eval call source (c.before v)) →
      q.eval call source (d.before v) = .interrupted .tooDeep →
        r.eval call source (c.before v) = .interrupted .tooDeep)
    (hr : ∀ v, P v (p.eval call source (c.before v)) → Q v (q.eval call source (d.before v)) →
      Q' v (r.eval call source (c.before v))) :
    Settles call source V r c Q' := by
  rcases hp with ⟨hmay, hp⟩ | hp
  · exact Or.inl ⟨hmay, fun v hv => hcut _ (hp v hv)⟩
  · rcases hq with ⟨hmay, hq⟩ | hq
    · exact Or.inl ⟨hmay, fun v hv => hcut' v (hp v hv) (hq v hv)⟩
    · exact Or.inr fun v hv => hr v (hp v hv) (hq v hv)

theorem returns_iff : Returns call source V p c a d ↔
    Settles call source V p c fun v o => o = .ok a (d.before v) := by
  constructor
  · intro h
    exact h.mono fun v o _ ho => ho.ok _ rfl
  · intro h
    refine h.mono fun v o _ ho => ⟨fun n hn => ?_, fun ht => ?_⟩
    · cases hn
      exact ho
    · cases ht

theorem Returns.of_eval (h : ∀ v, V v → p.eval call source (c.before v) = .ok a (d.before v)) :
    Returns call source V p c a d :=
  returns_iff.mpr (Or.inr h)

theorem Declines.of_eval (h : ∀ v, V v → ∃ f, p.eval call source (c.before v) = .fail f) :
    Declines call source V p c :=
  Or.inr h

/-- With the empty tail alone, a run returns or is cut off, if it may be. -/
theorem Returns.eval {cut : Prop} (h : Returns call source (.empty cut) p c a d) :
    (cut ∧ p.eval call source c = .interrupted .tooDeep) ∨ p.eval call source c = .ok a d := by
  rcases returns_iff.mp h with ⟨hcut, h⟩ | h
  · exact Or.inl ⟨hcut, by simpa using h [] rfl⟩
  · exact Or.inr (by simpa using h [] rfl)

/-- With the empty tail alone, a run that may not be cut off returns. -/
theorem Returns.eval_ok (h : Returns call source (.empty False) p c a d) :
    p.eval call source c = .ok a d := by
  rcases h.eval with ⟨hcut, -⟩ | hok
  · exact hcut.elim
  · exact hok

/-- With the empty tail alone, a run that may not be cut off fails. -/
theorem Declines.eval_fail (h : Declines call source (.empty False) p c) :
    ∃ f, p.eval call source c = .fail f := by
  rcases h with ⟨hcut, -⟩ | h
  · exact hcut.elim
  · simpa using h [] rfl

/-! ## One part after the other -/

/-- After a parser that returns, the next one decides. -/
theorem Settles.bind {next : α → Parser N R β} {Q : Text → Outcome β → Prop}
    (h : Returns call source V p c a d) (hnext : Settles call source V (next a) d Q) :
    Settles call source V (p.bind next) c Q := by
  refine (returns_iff.mp h).through_next hnext (fun _ => eval_bind_of_interrupted)
    (fun v hp hdeep => ?_) fun v hp hend => ?_
  · rw [Parser.eval, hp, Outcome.andThen_ok, hdeep]
  · rw [Parser.eval, hp, Outcome.andThen_ok]
    exact hend

theorem Reads.bind {next : α → Parser N R β} (h : Returns call source V p c a d)
    (hnext : Reads call source V t (next a) d b m) : Reads call source V t (p.bind next) c b m :=
  Settles.bind h hnext

theorem Declines.bind {next : α → Parser N R β} (h : Declines call source V p c) :
    Declines call source V (p.bind next) c :=
  Settles.through h (fun _ => eval_bind_of_interrupted) fun _ ⟨f, hf⟩ =>
    ⟨f, by rw [Parser.eval, hf, Outcome.andThen_fail]⟩

/-- A parser that fails after one that returns. -/
theorem Declines.bind_right {next : α → Parser N R β} (h : Returns call source V p c a d)
    (hnext : Declines call source V (next a) d) : Declines call source V (p.bind next) c :=
  Settles.bind h hnext

theorem Reads.refine {judge : α → Verdict β} (h : Reads call source V t p c a m)
    (hj : judge a = .accept b) : Reads call source V t (p.refine judge) c b m := by
  refine Settles.through h (fun _ => eval_refine_of_interrupted) fun v hfollows => ?_
  rw [Parser.eval]
  exact hfollows.andThen fun n => by rw [hj]

/-- A value that is rejected. -/
theorem Declines.refine_reject {judge : α → Verdict β} {e : Expectation}
    (h : Returns call source V p c a d) (hj : judge a = .reject e) :
    Declines call source V (p.refine judge) c := by
  refine (returns_iff.mp h).through (fun _ => eval_refine_of_interrupted) fun v hp => ?_
  rw [Parser.eval, hp, Outcome.andThen_ok, hj]
  exact ⟨_, rfl⟩

theorem Declines.refine {judge : α → Verdict β} (h : Declines call source V p c) :
    Declines call source V (p.refine judge) c :=
  Settles.through h (fun _ => eval_refine_of_interrupted) fun _ ⟨f, hf⟩ =>
    ⟨f, by rw [Parser.eval, hf, Outcome.andThen_fail]⟩

theorem Reads.map (f : α → β) (h : Reads call source V t p c a m) :
    Reads call source V t (p.map f) c (f a) m :=
  Reads.refine h rfl

theorem Declines.map (f : α → β) (h : Declines call source V p c) :
    Declines call source V (p.map f) c :=
  Declines.refine h

theorem Reads.guard {test : α → Bool} (e : Expectation) (h : Reads call source V t p c a m)
    (ht : test a = true) : Reads call source V t (p.guard test e) c a m :=
  Reads.refine h (by rw [if_pos ht])

theorem Reads.named (name : String) (h : Reads call source V t p c a m) :
    Reads call source V t (.named name p) c a m := h

theorem Declines.named (name : String) (h : Declines call source V p c) :
    Declines call source V (.named name p) c := h

theorem Reads.andThen {r : Parser N R β} (h : Returns call source V p c a d)
    (hr : Reads call source V t r d b m) : Reads call source V t (p.andThen r) c b m :=
  Reads.named _ (Reads.bind h hr)

theorem Declines.andThen {r : Parser N R β} (h : Declines call source V p c) :
    Declines call source V (p.andThen r) c :=
  Declines.named _ (Declines.bind h)

theorem Reads.followedBy {r : Parser N R β} (h : Returns call source V p c a d)
    (hr : Reads call source V t r d b m) : Reads call source V t (p.followedBy r) c a m :=
  Reads.named _ (Reads.bind h (Reads.map (fun _ => a) hr))

theorem Declines.followedBy {r : Parser N R β} (h : Declines call source V p c) :
    Declines call source V (p.followedBy r) c :=
  Declines.named _ (Declines.bind h)

theorem Returns.located (h : Returns call source V p c a d) :
    Returns call source V p.located c ⟨⟨source, c.pos, d.pos⟩, a⟩ d := by
  rw [returns_iff] at h ⊢
  refine h.through (fun _ => eval_located_of_interrupted) fun v hp => ?_
  rw [Parser.eval, hp, Outcome.andThen_ok]
  rfl

theorem Declines.located (h : Declines call source V p c) :
    Declines call source V p.located c :=
  Settles.through h (fun _ => eval_located_of_interrupted) fun _ ⟨f, hf⟩ =>
    ⟨f, by rw [Parser.eval, hf, Outcome.andThen_fail]⟩

/-- After what is returned, a parser goes its own way. -/
theorem Reads.self (h : Returns call source V p c a m) :
    Reads call source V t (p.followedBy t) c a m :=
  Reads.followedBy (b := ()) h (Or.inr fun _ _ => ⟨fun _ hn => hn, fun ht => ht⟩)

/-- What a parser reads, when it is known where its tail leads. -/
theorem Reads.close (h : Reads call source V t p c a m) (ht : Returns call source V t m () d) :
    Returns call source V p c a d := by
  rw [returns_iff] at ht ⊢
  exact Settles.through_next h ht (fun _ hdeep => hdeep)
    (fun _ hfollows hdeep => hfollows.tooDeep hdeep) fun _ hfollows hok => hfollows.ok _ hok

/-! ## Choices -/

theorem Reads.orElse_left (h : Reads call source V t p c a m) :
    Reads call source V t (p.orElse q) c a m := by
  refine Settles.through h (fun _ => eval_orElse_of_interrupted) fun v hfollows => ?_
  rw [eval_orElse]
  exact hfollows.orElse _

theorem Reads.orElse_right (hp : Declines call source V p c) (h : Reads call source V t q c a m) :
    Reads call source V t (p.orElse q) c a m := by
  refine Settles.through_next hp h (fun _ => eval_orElse_of_interrupted)
    (fun v hfail hdeep => ?_) fun v hfail hfollows => ?_
  · obtain ⟨f, hf⟩ := hfail
    rw [eval_orElse, hf, hdeep]
    rfl
  · obtain ⟨f, hf⟩ := hfail
    rw [eval_orElse, hf]
    exact hfollows.fail_orElse f

theorem Declines.orElse (hp : Declines call source V p c) (hq : Declines call source V q c) :
    Declines call source V (p.orElse q) c := by
  refine Settles.through_next hp hq (fun _ => eval_orElse_of_interrupted)
    (fun v hfail hdeep => ?_) fun v hfail hfail' => ?_
  · obtain ⟨f, hf⟩ := hfail
    rw [eval_orElse, hf, hdeep]
    rfl
  · obtain ⟨f, hf⟩ := hfail
    obtain ⟨g, hg⟩ := hfail'
    exact ⟨f.furthest g, by rw [eval_orElse, hf, hg]; rfl⟩

theorem Reads.describe (description : String) (h : Reads call source V t p c a m) :
    Reads call source V t (p.describe description) c a m :=
  Reads.named _ (Reads.orElse_left h)

theorem Declines.describe (description : String) (h : Declines call source V p c) :
    Declines call source V (p.describe description) c :=
  Declines.named _ (Declines.orElse h (Declines.of_eval fun _ _ => ⟨_, rfl⟩))

/-- A choice of which all alternatives fail. -/
theorem Declines.choice {ps : List (Parser N R α)} (h : ∀ p ∈ ps, Declines call source V p c) :
    Declines call source V (choice ps) c :=
  choice_induction call source (motive := fun p => Declines call source V p c)
    (fun _ _ heq hp => Settles.congr hp heq) (Declines.of_eval fun _ _ => ⟨_, rfl⟩)
    (fun _ _ => Declines.orElse) h

theorem Reads.foldl_orElse (h : Reads call source V t p c a m) (qs : List (Parser N R α)) :
    Reads call source V t (qs.foldl .orElse p) c a m := by
  induction qs generalizing p with
  | nil => exact h
  | cons q qs ih => exact ih (Reads.orElse_left h)

/-- A choice reads what its alternatives up to some place read. -/
theorem Reads.choice_of_foldl {qs ps : List (Parser N R α)} (hqs : qs <+: ps)
    (h : Reads call source V t (qs.foldl .orElse p) c a m) :
    Reads call source V t (choice (p :: ps)) c a m := by
  obtain ⟨after, rfl⟩ := hqs
  refine Settles.congr ?_ (eval_choice_eq_foldl p (qs ++ after)).symm
  rw [List.foldl_append]
  exact Reads.foldl_orElse h after

/-- A choice reads what its first alternative reads that does not fail. -/
theorem Reads.choice {before after : List (Parser N R α)}
    (hbefore : ∀ q ∈ before, Declines call source V q c) (h : Reads call source V t p c a m) :
    Reads call source V t (choice (before ++ p :: after)) c a m := by
  cases before with
  | nil => exact Reads.choice_of_foldl List.nil_prefix h
  | cons q qs =>
      have hdeclines : Declines call source V (qs.foldl .orElse q) c :=
        Settles.congr (Declines.choice hbefore) (eval_choice_eq_foldl q qs)
      have hqs : qs ++ [p] <+: qs ++ p :: after := ⟨after, by simp⟩
      refine Reads.choice_of_foldl hqs ?_
      rw [List.foldl_append]
      exact Reads.orElse_right hdeclines h

/-! ## Repetitions -/

theorem Returns.many_nil (hcall : ∀ n c, (call n c).AheadOf c)
    (h : Declines call source V p c) : Returns call source V p.many c [] c := by
  rw [returns_iff]
  refine Settles.through h (fun _ => eval_many_of_interrupted hcall) fun v hfail => ?_
  obtain ⟨f, hf⟩ := hfail
  rw [eval_many_last hcall hf]

theorem Returns.many_cons {as : List α} {e : Cursor} (hcall : ∀ n c, (call n c).AheadOf c)
    (h : Returns call source V p c a d) (hne : d.offset ≠ c.offset)
    (hmany : Returns call source V p.many d as e) :
    Returns call source V p.many c (a :: as) e := by
  rw [returns_iff] at h hmany ⊢
  refine h.through_next hmany (fun _ => eval_many_of_interrupted hcall)
    (fun v hp hdeep => ?_) fun v hp hrest => ?_
  · rw [eval_many_next hcall hp hne, hdeep, Outcome.andThen_interrupted]
  · rw [eval_many_next hcall hp hne, hrest, Outcome.andThen_ok]

theorem Returns.many1 {as : List α} {e : Cursor} (h : Returns call source V p c a d)
    (hmany : Returns call source V p.many d as e) :
    Returns call source V p.many1 c (a :: as) e :=
  Reads.named _ (Reads.bind h (Reads.map (a :: ·) hmany))

theorem Returns.manyTill_nil {stop : Parser N R β} {b : β} (hcall : ∀ n c, (call n c).AheadOf c)
    (h : Returns call source V stop c b d) : Returns call source V (p.manyTill stop) c [] d := by
  rw [returns_iff] at h ⊢
  refine h.through (fun _ => eval_manyTill_of_interrupted hcall) fun v hend => ?_
  rw [eval_manyTill_last hcall hend]

theorem Returns.manyTill_cons {stop : Parser N R β} {as : List α} {e : Cursor}
    (hcall : ∀ n c, (call n c).AheadOf c) (hstop : Declines call source V stop c)
    (h : Returns call source V p c a d) (hne : d.offset ≠ c.offset)
    (hmany : Returns call source V (p.manyTill stop) d as e) :
    Returns call source V (p.manyTill stop) c (a :: as) e := by
  rw [returns_iff] at h hmany ⊢
  rcases hstop with ⟨hcut, hstop⟩ | hstop
  · refine Or.inl ⟨hcut, fun v hv => ?_⟩
    rw [eval_manyTill_of_interrupted hcall (hstop v hv)]
  · rcases h with ⟨hcut, h⟩ | h
    · refine Or.inl ⟨hcut, fun v hv => ?_⟩
      obtain ⟨f, hf⟩ := hstop v hv
      rw [eval_manyTill_of_item_interrupted hcall hf (h v hv)]
    · have heq : ∀ v, V v → (p.manyTill stop).eval call source (c.before v) =
          ((p.manyTill stop).eval call source (d.before v)).andThen
            fun as e => .ok (a :: as) e := by
        intro v hv
        obtain ⟨f, hf⟩ := hstop v hv
        rw [eval_manyTill_next hcall hf (h v hv) hne]
      rcases hmany with ⟨hcut, hmany⟩ | hmany
      · refine Or.inl ⟨hcut, fun v hv => ?_⟩
        rw [heq v hv, hmany v hv, Outcome.andThen_interrupted]
      · refine Or.inr fun v hv => ?_
        rw [heq v hv, hmany v hv, Outcome.andThen_ok]

/-! ## Characters and words -/

theorem Returns.char {ch : Char} {r : Text} (h : c.rest = ch :: r) :
    Returns call source V (.char ch) c ch (c.skip [ch]) := by
  refine Returns.of_eval fun v _ => ?_
  rw [Cursor.before_skip (u := [ch]) h]
  exact eval_char_of_head call source (r := r ++ v) (by rw [Cursor.before_rest, h]; rfl)

theorem Declines.char {ch : Char} (h : ∀ v, V v → (c.rest ++ v).head? ≠ some ch) :
    Declines call source V (.char ch) c :=
  Declines.of_eval fun v hv => eval_char_of_not_head call source (h v hv)

theorem Returns.text {s r : Text} (h : c.rest = s ++ r) :
    Returns call source V (.text s) c s (c.skip s) := by
  refine Returns.of_eval fun v _ => ?_
  rw [Cursor.before_skip h]
  exact eval_text_of_isPrefix call source ⟨r ++ v, by rw [Cursor.before_rest, h, List.append_assoc]⟩

theorem Declines.text {s : Text} (h : ∀ v, V v → ¬ s <+: c.rest ++ v) :
    Declines call source V (.text s) c :=
  Declines.of_eval fun v hv => eval_text_of_not_isPrefix call source (h v hv)

theorem Returns.identifier {name r : Text} (hr : c.rest = name ++ r)
    (h : ∀ v, V v → wordPrefix (c.rest ++ v) = some name) :
    Returns call source V PieSyntax.identifier c name (c.skip name) := by
  refine Returns.of_eval fun v hv => ?_
  rw [Cursor.before_skip hr]
  exact eval_identifier_of_some call source (h v hv)

theorem Declines.identifier (h : ∀ v, V v → wordPrefix (c.rest ++ v) = none) :
    Declines call source V PieSyntax.identifier c :=
  Declines.of_eval fun v hv => eval_identifier_of_none call source (h v hv)

theorem Returns.digits {run r : Text} (hr : c.rest = run ++ r)
    (h : ∀ v, V v → digitPrefix (c.rest ++ v) = some run) :
    Returns call source V PieSyntax.digits c run (c.skip run) := by
  refine Returns.of_eval fun v hv => ?_
  rw [Cursor.before_skip hr]
  exact eval_digits_of_some call source (h v hv)

theorem Declines.digits (h : ∀ v, V v → digitPrefix (c.rest ++ v) = none) :
    Declines call source V PieSyntax.digits c :=
  Declines.of_eval fun v hv => eval_digits_of_none call source (h v hv)

end Parser

/-! ## Calls -/

namespace Rules

variable {N : Type} {R : N → Type} {rules : Rules N R} {source : String} {V : Tails}
variable {k : Nat} {n : N} {c d : Cursor} {a : R n}

/-- A call returns what the rule returns, one level further down. -/
theorem returns_call (hroom : V.Room 1 k) (h : ∀ j, k = j + 1 →
      Parser.Returns (rules.call source j) source V (rules n) c a d) :
    Parser.Returns (rules.call source k) source V (.call n) c a d := by
  rw [Parser.returns_iff]
  cases k with
  | succ j => exact Parser.returns_iff.mp (h j rfl)
  | zero =>
      rcases hroom with hcut | hk
      · exact Or.inl ⟨hcut, fun _ _ => rfl⟩
      · omega

/-- A call fails when the rule fails, one level further down. -/
theorem declines_call (hroom : V.Room 1 k) (h : ∀ j, k = j + 1 →
      Parser.Declines (rules.call source j) source V (rules n) c) :
    Parser.Declines (rules.call source k) source V (.call n) c := by
  cases k with
  | succ j => exact h j rfl
  | zero =>
      rcases hroom with hcut | hk
      · exact Or.inl ⟨hcut, fun _ _ => rfl⟩
      · omega

end Rules

end PieSyntax
