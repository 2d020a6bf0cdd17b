import PieSyntax.Proofs.Confined
import PieSyntax.Proofs.Sessions

/-!
# A session form by form

A session is told from its first form and the session that goes on after it, without the fuel and
the forms read so far that the loop carries along.  So what a session does is a matter of the forms
that it reads one after the other, and of where it stands then.

## Main results

* `readForms_eq` — the loop adds the forms of the session to those read before.
* `session_startsWith` — what a session does first.
* `FormsRead.session_eq` — a session that has read some forms, and the session after them.
* `exists_formsRead_of_getElem?`, `exists_formsRead_session` — what was read before a form of a
  session, and before its end.
-/

namespace PieSyntax

variable {ceiling : Nat}

namespace FormSequence

variable (ts us : List TopLevel) (s : FormSequence)

/-- The session, with forms that were read before it. -/
def prepend : FormSequence := ⟨ts ++ s.forms, s.ending⟩

@[simp] theorem prepend_forms : (s.prepend ts).forms = ts ++ s.forms := rfl

@[simp] theorem prepend_nil : s.prepend [] = s := rfl

@[simp] theorem prepend_prepend : (s.prepend us).prepend ts = s.prepend (ts ++ us) := by
  simp [prepend]

/-- The session was not ended by nesting that is too deep. -/
def BelowCeiling (s : FormSequence) : Prop :=
  ∀ r, s.ending = some (.report r) → r.detail ≠ some tooDeepMessage

instance (s : FormSequence) : Decidable s.BelowCeiling :=
  match h : s.ending with
  | some (.report r) =>
    decidable_of_iff (r.detail ≠ some tooDeepMessage) (by simp [BelowCeiling, h])
  | some (.interrupted why) => isTrue (by simp [BelowCeiling, h])
  | none => isTrue (by simp [BelowCeiling, h])

end FormSequence

variable {source : String} {text : Text} {c d e : Cursor} {t : TopLevel} {ts : List TopLevel}

/-! ## One form and the session after it -/

/-- The session from a cursor where trivia have been skipped. -/
def session (source : String) (text : Text) (c : Cursor) (ceiling : Nat := nestingCeiling) :
    FormSequence :=
  readForms ceiling source text c.rest c []

theorem length_lt_of_eval_topLevel
    (h : Grammar.rules.run ceiling source Grammar.topLevel c = .ok t d) :
    d.rest.length < c.rest.length := by
  exact (Rules.reaches_of_run h).rest_lt (Grammar.offset_ne_of_eval_topLevel h)

/-- The loop adds the forms of the session to those that were read before it. -/
theorem readForms_eq (source : String) (text : Text) (c : Cursor) {fuel : Text}
    (hfuel : c.rest.length ≤ fuel.length) (done : List TopLevel) :
    readForms ceiling source text fuel c done =
      (session source text c ceiling).prepend done.reverse := by
  -- The fuel of the session is the text left, so the induction is along that.
  induction c using Cursor.forward_induction generalizing fuel done with
  | step c ih =>
      unfold session
      cases hrest : c.rest with
      | nil =>
          have hend : c.atEnd = true := List.isEmpty_iff.mpr hrest
          cases fuel with
          | nil => simp [readForms, FormSequence.prepend]
          | cons ch fuel => simp [readForms, hend, FormSequence.prepend]
      | cons x rest =>
          have hend : ¬ c.atEnd = true := by
            rw [Cursor.atEnd, hrest]
            exact fun h => by cases h
          have hlength : c.rest.length = rest.length + 1 := by rw [hrest, List.length_cons]
          obtain ⟨ch, fuel', rfl⟩ := List.exists_cons_of_length_pos (by omega : 0 < fuel.length)
          rw [List.length_cons] at hfuel
          simp only [readForms, if_neg hend]
          cases hread : readFrom source text c Grammar.topLevel ceiling with
          | error why => simp [FormSequence.prepend]
          | ok progress =>
              obtain ⟨t, d⟩ := progress
              have hlt := length_lt_of_eval_topLevel (readFrom_eq_ok_iff.mp hread)
              simp only
              rw [ih d hlt (by omega) (t :: done), ih d hlt (by omega) [t]]
              simp

theorem session_of_nil (h : c.rest = []) : session source text c ceiling = ⟨[], none⟩ := by
  rw [session, h, readForms]
  rfl

/-- A form that is read comes first. -/
theorem session_of_ok (h : Grammar.rules.run ceiling source Grammar.topLevel c = .ok t d) :
    session source text c ceiling = (session source text d ceiling).prepend [t] := by
  obtain ⟨x, rest, hrest, hle⟩ :=
    (Rules.reaches_of_run h).exists_cons (Grammar.offset_ne_of_eval_topLevel h)
  have hend : ¬ c.atEnd = true := by
    rw [Cursor.atEnd, hrest]
    exact fun hnil => by cases hnil
  rw [session, hrest, readForms, if_neg hend, readFrom_eq_ok_iff.mpr h]
  exact readForms_eq source text d hle [t]

/-- A session ends where a form cannot be read. -/
theorem session_of_error {why : ReadError} (hne : c.rest ≠ [])
    (h : readFrom source text c Grammar.topLevel ceiling = .error why) :
    session source text c ceiling = ⟨[], some why⟩ := by
  obtain ⟨x, rest, hrest⟩ := List.exists_cons_of_ne_nil hne
  have hend : ¬ c.atEnd = true := by
    rw [Cursor.atEnd, hrest]
    exact fun hnil => by cases hnil
  rw [session, hrest, readForms, if_neg hend, h]
  rfl

/-- What a session does first: it stops at the end of the text, or reads a form and goes on, or ends
with an error. -/
inductive StartsWith (source : String) (ceiling : Nat) (text : Text) (c : Cursor) :
    FormSequence → Prop where
  | stop (h : c.rest = []) : StartsWith source ceiling text c ⟨[], none⟩
  | form {t : TopLevel} {d : Cursor}
    (h : Grammar.rules.run ceiling source Grammar.topLevel c = .ok t d) :
    StartsWith source ceiling text c ((session source text d ceiling).prepend [t])
  | error {why : ReadError} (hne : c.rest ≠ [])
    (h : readFrom source text c Grammar.topLevel ceiling = .error why) :
    StartsWith source ceiling text c ⟨[], some why⟩

theorem session_startsWith (source : String) (ceiling : Nat) (text : Text) (c : Cursor) :
    StartsWith source ceiling text c (session source text c ceiling) := by
  by_cases hnil : c.rest = []
  · rw [session_of_nil hnil]
    exact .stop hnil
  · cases hread : readFrom source text c Grammar.topLevel ceiling with
    | error why =>
        rw [session_of_error hnil hread]
        exact .error hnil hread
    | ok progress =>
        have hrun := readFrom_eq_ok_iff.mp hread
        rw [session_of_ok hrun]
        exact .form hrun

/-- Below the ceiling, forms are not cut off. -/
theorem FormSequence.BelowCeiling.run_ne_tooDeep (h : (session source text c ceiling).BelowCeiling)
    (hne : c.rest ≠ []) :
    Grammar.rules.run ceiling source Grammar.topLevel c ≠ .interrupted .tooDeep := by
  intro hdeep
  have herror : readFrom source text c Grammar.topLevel ceiling =
      .error (.report (tooDeepReport source text c)) := by rw [readFrom, hdeep]
  rw [session_of_error hne herror] at h
  exact h _ rfl rfl

/-! ## Several forms -/

/-- The forms are read one after the other, from the first cursor to the second. -/
inductive FormsRead (source : String) (ceiling : Nat) : Cursor → List TopLevel → Cursor → Prop where
  | nil (c : Cursor) : FormsRead source ceiling c [] c
  | cons {c d e : Cursor} {t : TopLevel} {ts : List TopLevel}
    (h : Grammar.rules.run ceiling source Grammar.topLevel c = .ok t d)
    (hrest : FormsRead source ceiling d ts e) : FormsRead source ceiling c (t :: ts) e

/-- A session that has read some forms goes on after them. -/
theorem FormsRead.session_eq (h : FormsRead source ceiling c ts d) (text : Text) :
    session source text c ceiling = (session source text d ceiling).prepend ts := by
  induction h with
  | nil c => rfl
  | @cons c d e t ts h hrest ih => rw [session_of_ok h, ih, FormSequence.prepend_prepend]; rfl

theorem FormsRead.reaches (h : FormsRead source ceiling c ts d) : c.Reaches d := by
  induction h with
  | nil c => exact Cursor.Reaches.refl c
  | cons h hrest ih => exact (Rules.reaches_of_run h).trans ih

/-- One of the forms, and those that were read before it. -/
theorem FormsRead.exists_of_getElem? {ts : List TopLevel} {k : Nat}
    (h : FormsRead source ceiling c ts d) (ht : ts[k]? = some t) :
    ∃ us m e, us.length = k ∧ FormsRead source ceiling c us m ∧
      Grammar.rules.run ceiling source Grammar.topLevel m = .ok t e := by
  induction h generalizing k with
  | nil c => cases ht
  | @cons c d e t' ts hrun hrest ih =>
      cases k with
      | zero =>
          cases ht
          exact ⟨[], c, d, rfl, .nil c, hrun⟩
      | succ k =>
          obtain ⟨us, m, e', hlength, hforms, hm⟩ := ih ht
          exact ⟨t' :: us, m, e', congrArg (· + 1) hlength, .cons hrun hforms, hm⟩

/-- A session reads its forms one after the other, up to the end of the text or to where the next one
cannot be read. -/
theorem exists_formsRead_session (source : String) (text : Text) (c : Cursor) :
    ∃ d, FormsRead source ceiling c (session source text c ceiling).forms d ∧
      (d.rest = [] ∧ (session source text c ceiling).ending = none ∨
        d.rest ≠ [] ∧ ∃ e, readFrom source text d Grammar.topLevel ceiling = .error e ∧
          (session source text c ceiling).ending = some e) := by
  induction c using Cursor.forward_induction with
  | step c ih =>
      have hstep := session_startsWith source ceiling text c
      generalize session source text c ceiling = s at hstep
      cases hstep with
      | stop hnil => exact ⟨c, .nil c, Or.inl ⟨hnil, rfl⟩⟩
      | error hne hread => exact ⟨c, .nil c, Or.inr ⟨hne, _, hread, rfl⟩⟩
      | @form t d hrun =>
          obtain ⟨e, hforms, hend⟩ := ih d (length_lt_of_eval_topLevel hrun)
          exact ⟨e, .cons hrun hforms, hend⟩

theorem exists_formsRead_of_getElem? {k : Nat}
    (h : (session source text c ceiling).forms[k]? = some t) :
    ∃ ts d e, ts.length = k ∧ FormsRead source ceiling c ts d ∧
      Grammar.rules.run ceiling source Grammar.topLevel d = .ok t e := by
  obtain ⟨d, hforms, -⟩ := exists_formsRead_session source text c
  exact hforms.exists_of_getElem? h

/-- A session without an error has read its forms up to the end of the text. -/
theorem exists_formsRead_of_finished (h : (session source text c ceiling).ending = none) :
    ∃ d, FormsRead source ceiling c (session source text c ceiling).forms d ∧ d.rest = [] := by
  obtain ⟨d, hforms, ⟨hnil, -⟩ | ⟨-, e, -, hsome⟩⟩ := exists_formsRead_session source text c
  · exact ⟨d, hforms, hnil⟩
  · rw [h] at hsome
    cases hsome

/-! ## From the start of a text -/

theorem iterForms_eq_session
    (h : Grammar.rules.run ceiling source Grammar.trivia (.start text) = .ok () c) :
    iterForms source text ceiling = session source text c ceiling := by
  rw [iterForms, readFrom_eq_ok_iff.mpr h]
  rfl

/-- Trivia come first, and then a session, unless the trivia are nested too deeply. -/
theorem iterForms_eq_or (source : String) (text : Text) :
    (∃ c, Grammar.rules.run ceiling source Grammar.trivia (.start text) = .ok () c ∧
      iterForms source text ceiling = session source text c ceiling) ∨
    iterForms source text ceiling = ⟨[], some (.report (tooDeepReport source text (.start text)))⟩ := by
  cases hrun : Grammar.rules.run ceiling source Grammar.trivia (.start text) with
  | ok u c => exact Or.inl ⟨c, rfl, iterForms_eq_session hrun⟩
  | fail f => exact absurd hrun Grammar.eval_trivia_ne_fail
  | interrupted why =>
      obtain rfl := Grammar.confined_trivia _ why hrun
      rw [iterForms, readFrom, hrun]
      exact Or.inr rfl

theorem FormSequence.BelowCeiling.exists_session (h : (iterForms source text ceiling).BelowCeiling) :
    ∃ c, Grammar.rules.run ceiling source Grammar.trivia (.start text) = .ok () c ∧
      iterForms source text ceiling = session source text c ceiling := by
  rcases iterForms_eq_or source text with hsession | hdeep
  · exact hsession
  · rw [hdeep] at h
    exact absurd rfl (h _ rfl)

end PieSyntax
