import PieSyntax.Proofs.FormByForm
import PieSyntax.Proofs.Translation

/-!
# Sessions further down

A session that goes on where a text starts anew does what a session on that text alone does.  The
forms stand further down, and so does the error that ends it; a report also carries the text that was
read, which is the longer one.  What a report says stays the same: whether the end of the text has
been reached is a matter of what is left.

A session on the longer text that is not cut off tells that the one on the text alone is not.

## Main results

* `session_moved` — a session elsewhere.
* `session_eq_moved_iterForms` — a session on a text that comes next is one on that text, moved.
* `Report.moved_message` — what a report says further down.
-/

namespace PieSyntax

variable {ceiling : Nat}

/-! ## Places and errors -/

namespace Position

/-- The place so many lines further down. -/
def down (n : Nat) (p : Position) : Position := ⟨p.line + n, p.column⟩

theorem down_advance (n : Nat) (p : Position) (text : Text) :
    (p.down n).advance text = (p.advance text).down n := by
  unfold advance down
  split
  · simp only [mk.injEq, and_true]
    omega
  · rfl

theorem down_lt_iff (n : Nat) (p q : Position) : p.down n < q.down n ↔ p < q := by
  simp only [lt_def, down]
  omega

/-- What is moved to the start of a line is moved down. -/
theorem translate_start (n : Nat) : translate start (start.down n) = down n := by
  funext p
  simp only [translate, start, down, mk.injEq]
  constructor
  · omega
  · simp

end Position

/-- The failure at another place. -/
def Failure.moved (move : Position → Position) (f : Failure) : Failure :=
  ⟨move f.pos, f.expectation⟩

/-- The report at another place, in another text. -/
def Report.moved (move : Position → Position) (text : Text) (r : Report) : Report :=
  ⟨r.source, r.failure.moved move, some text, r.detail⟩

/-- The interruption at another place, if it tells one. -/
def Interruption.moved (move : Position → Position) : Interruption → Interruption
  | .stalled loop label pos => .stalled loop label (move pos)
  | .tooDeep => .tooDeep
  | .numeralTooLong e => .numeralTooLong e
  | .sourceMismatch mismatch => .sourceMismatch mismatch
  | .refused reason => .refused reason

/-- The error at another place, in another text. -/
def ReadError.moved (move : Position → Position) (text : Text) : ReadError → ReadError
  | .report r => .report (r.moved move text)
  | .interrupted why => .interrupted (why.moved move)

/-- The session at another place, in another text. -/
def FormSequence.moved (move : Position → Position) (text : Text) (s : FormSequence) :
    FormSequence :=
  ⟨s.forms.map (relocateTopLevel (Location.map move)), s.ending.map (ReadError.moved move text)⟩

/-- A report further down a text that ends as the first text does says the same. -/
theorem Report.moved_message {r : Report} {n : Nat} {s text : Text} (hr : r.text = some s)
    (htext : Position.start.advance text = (Position.start.advance s).down n) :
    (r.moved (Position.down n) text).message = r.message := by
  have hend : (r.moved (Position.down n) text).beforeEnd = r.beforeEnd := by
    rw [beforeEnd, beforeEnd, hr]
    simp only [moved, Failure.moved, htext, Position.down_lt_iff]
  rw [message, message, hend]
  rfl

/-! ## Runs -/

section Runs

variable {c₀ c₁ c c' : Cursor} {source : String} {s text : Text}

theorem Tracking.eq_moved_of_fails {f f' : Failure} (h : (translation c₀ c₁).Fails f f') :
    f' = f.moved (Position.translate c₀.pos c₁.pos) := by
  obtain ⟨pos, expectation⟩ := f
  obtain ⟨pos', expectation'⟩ := f'
  obtain ⟨hpos, hexpectation⟩ := h
  simp only [Failure.moved, Failure.mk.injEq]
  exact ⟨hpos.1, hexpectation.symm⟩

theorem Tracking.eq_moved_of_breaks {why why' : Interruption}
    (h : (translation c₀ c₁).Breaks why why') :
    why' = why.moved (Position.translate c₀.pos c₁.pos) := by
  cases h with
  | stalled hpos => rw [hpos.1, Interruption.moved]
  | other why hne =>
      cases why with
      | stalled loop label p => exact absurd rfl (hne loop label p)
      | tooDeep => rfl
      | numeralTooLong e => rfl
      | sourceMismatch mismatch => rfl
      | refused reason => rfl

theorem readFrom_of_interrupted {α : Type} {p : PieParser α} {why : Interruption}
    (h : Grammar.rules.run ceiling source p c = .interrupted why) (hne : why ≠ .tooDeep) :
    readFrom source text c p ceiling = .error (.interrupted why) := by
  rw [readFrom, h]
  cases why with
  | tooDeep => exact absurd rfl hne
  | stalled loop label p => rfl
  | numeralTooLong e => rfl
  | sourceMismatch mismatch => rfl
  | refused reason => rfl

/-- An error of a run elsewhere is one of the run, moved, unless it is cut off: the report on nesting
is made by another scan. -/
theorem readFrom_error_moved {α : Type} {T : α → α → Prop} {p : PieParser α} {why : ReadError}
    (h : Outcome.Related (Tracking.translation c₀ c₁) T
      (Grammar.rules.run ceiling source p c) (Grammar.rules.run ceiling source p c'))
    (hdeep : Grammar.rules.run ceiling source p c' ≠ .interrupted .tooDeep)
    (herror : readFrom source text c' p ceiling = .error why) :
    ∃ why₀, readFrom source s c p ceiling = .error why₀ ∧
      why = why₀.moved (Position.translate c₀.pos c₁.pos) text := by
  generalize hrun : Grammar.rules.run ceiling source p c = o at h
  generalize hrun' : Grammar.rules.run ceiling source p c' = o' at h hdeep
  cases h with
  | ok ht hd =>
      rw [readFrom, hrun'] at herror
      cases herror
  | fail hf =>
      rw [readFrom, hrun'] at herror
      cases herror
      refine ⟨_, by rw [readFrom, hrun], ?_⟩
      rw [ReadError.moved, Report.moved, Tracking.eq_moved_of_fails hf]
  | @interrupted why₁ why₁' hw =>
      have hmoved := Tracking.eq_moved_of_breaks hw
      have hne' : why₁' ≠ .tooDeep := fun heq => hdeep (congrArg Outcome.interrupted heq)
      have hne : why₁ ≠ .tooDeep := by
        rintro rfl
        exact hne' hmoved
      rw [readFrom_of_interrupted hrun' hne'] at herror
      cases herror
      refine ⟨_, readFrom_of_interrupted hrun hne, ?_⟩
      rw [ReadError.moved, hmoved]

/-! ## Sessions -/

/-- A session elsewhere, if it is not cut off. -/
theorem session_moved (hc : (Tracking.translation c₀ c₁).cursor c c')
    (hbelow : (session source text c' ceiling).BelowCeiling) :
    session source text c' ceiling =
      (session source s c ceiling).moved (Position.translate c₀.pos c₁.pos) text := by
  induction c using Cursor.forward_induction generalizing c' with
  | step c ih =>
      have hrest := (Tracking.translation c₀ c₁).rest_eq hc
      have hrun := Grammar.topLevel_translated ceiling source hc
      have hstep := session_startsWith source ceiling text c'
      generalize hs : session source text c' ceiling = s' at hstep
      rw [hs] at hbelow
      cases hstep with
      | stop hnil =>
          rw [hrest] at hnil
          rw [session_of_nil hnil]
          rfl
      | error hne herror =>
          rw [← hs] at hbelow
          obtain ⟨why₀, hwhy₀, rfl⟩ :=
            readFrom_error_moved (s := s) hrun (hbelow.run_ne_tooDeep hne) herror
          rw [hrest] at hne
          rw [session_of_error hne hwhy₀]
          rfl
      | @form t' d' hok' =>
          rw [hok'] at hrun
          generalize hok : Grammar.rules.run ceiling source Grammar.topLevel c = o at hrun
          cases hrun with
          | @ok t t' d d' ht hd =>
              have hlt := length_lt_of_eval_topLevel hok
              rw [session_of_ok hok, ih d hlt hd hbelow, ht]
              rfl

/-- A session on a text that comes next is the one on that text, moved. -/
theorem session_eq_moved_iterForms (hc : c.rest = s)
    (htrivia : Grammar.rules.run ceiling source Grammar.trivia c = .ok () c')
    (hbelow : (session source text c' ceiling).BelowCeiling) :
    session source text c' ceiling =
      (iterForms source s ceiling).moved (Position.translate Position.start c.pos) text := by
  have hstart : (Tracking.translation (.start s) c).cursor (.start s) c :=
    Tracking.translation_start hc
  have hrun := Grammar.run_translated Grammar.spacing_alike ceiling source hstart
  rw [htrivia] at hrun
  generalize hok : Grammar.rules.run ceiling source Grammar.trivia (.start s) = o at hrun
  cases hrun with
  | @ok u u' d d' hu hd =>
      rw [iterForms_eq_session hok]
      exact session_moved hd hbelow

/-- The report that ends a session carries the text that was read. -/
theorem session_report_text {r : Report}
    (h : (session source text c ceiling).ending = some (.report r)) : r.text = some text := by
  induction c using Cursor.forward_induction with
  | step c ih =>
      have hstep := session_startsWith source ceiling text c
      generalize session source text c ceiling = s at h hstep
      cases hstep with
      | stop hnil => cases h
      | @form t d hrun => exact ih d (length_lt_of_eval_topLevel hrun) h
      | error hne hread =>
          cases h
          unfold readFrom at hread
          split at hread <;> cases hread <;> rfl

theorem iterForms_report_text {r : Report}
    (h : (iterForms source text ceiling).ending = some (.report r)) : r.text = some text := by
  rcases iterForms_eq_or source text with ⟨c, -, heq⟩ | hdeep
  · rw [heq] at h
    exact session_report_text h
  · rw [hdeep] at h
    cases h
    rfl

end Runs

end PieSyntax
