import PieSyntax.Proofs.Growth
import PieSyntax.Proofs.MovedSession
import PieSyntax.Proofs.Resuming

/-!
# Texts joined by a newline

A session on two texts with a newline between them reads the forms of the first one and then does
what a session on the second one does, further down.  The newline ends whatever the first text ends
with: a word, a comment without a newline, or a datum that is commented out.  The trivia after the
last form go on with those that the second text starts with, and from there they are taken up.

The longer text must not be cut off, and that is more than the two texts being read: a row of comments
at the end of the one and a row at the start of the other are a single row, which may be too long for
the ceiling.

## Main results

* `FormsRead.newline` — forms up to the end of a text, before a newline and another text.
* `iterForms_join` — the forms of two texts that are joined.
* `eval_trivia_commentRow` — a row of comments that is too long.
-/

namespace PieSyntax

variable {source : String} {ceiling k : Nat} {c d e m : Cursor} {t : TopLevel}
variable {ts : List TopLevel}
variable {a b s text : Text}

/-! ## After a newline -/

theorem Position.advance_newline (p : Position) (a : Text) :
    p.advance (a ++ ['\n']) = ⟨p.line + (a.count '\n' + 1 : Nat), 1⟩ := by
  have hmem : '\n' ∈ a ++ ['\n'] := by simp
  have hlast : lastLine (a ++ ['\n']) = [] := by
    rw [lastLine_append_of_mem (by simp)]
    exact lastLine_newline_cons (List.not_mem_nil)
  rw [advance, if_pos hmem, hlast, List.count_append]
  rfl

/-- Where a text follows another one and a newline, it starts on a line of its own. -/
theorem Cursor.Reaches.pos_after_newline (h : (Cursor.start (a ++ '\n' :: b)).Reaches e)
    (he : e.rest = b) : e.pos = Position.start.down (a.count '\n' + 1) := by
  obtain ⟨u, hu⟩ := h
  have hrest : a ++ '\n' :: b = u ++ e.rest := hu.rest
  have hsplit : a ++ '\n' :: b = (a ++ ['\n']) ++ b := by simp
  rw [he, hsplit] at hrest
  obtain rfl : a ++ ['\n'] = u := List.append_cancel_right hrest
  rw [hu.pos]
  exact Position.advance_newline Position.start a

/-- The last form of a text is read before a newline, and the trivia after it are skipped as they
are after the newline. -/
theorem Grammar.exists_run_topLevel_newline
    (h : rules.run ceiling source topLevel c = .ok t d) (hd : d.rest = [])
    (hbelow : (session source text (c.before ('\n' :: b)) ceiling).BelowCeiling) :
    ∃ d' e, rules.run ceiling source topLevel (c.before ('\n' :: b)) = .ok t d' ∧
      (c.before ('\n' :: b)).Reaches e ∧ e.rest = b ∧
      rules.run ceiling source trivia e = .ok () d' := by
  obtain ⟨x, m, hx, hmean, hskip⟩ := stands_of_eval_topLevel h
  have hends := SExpr.endsBefore_of_boundary x (boundary_newline b)
  have hstands := hx.extend (Or.inr hends)
  obtain ⟨e, hgap, he⟩ := (gap_of_eval_skip hskip).newline hd b
  rcases eval_topLevel_of_stands hstands hmean with hdeep | ⟨d', hskip', hok⟩
  · exact absurd hdeep (hbelow.run_ne_tooDeep hstands.solid.2)
  · obtain ⟨j, hj, hlower⟩ := eval_skip_ok hskip'
    have hresumed := eval_trivia_of_gap hgap hlower
    exact ⟨d', e, hok, hstands.reaches.1.trans hgap.reaches, he,
      eval_trivia_mono (by omega) hresumed⟩

/-- Forms up to the end of a text are read before a newline, and the trivia after them are skipped as
they are after the newline. -/
theorem FormsRead.newline (h : FormsRead source ceiling c ts d) (hne : ts ≠ []) (hd : d.rest = [])
    (hbelow : (session source text (c.before ('\n' :: b)) ceiling).BelowCeiling) :
    ∃ d' e, FormsRead source ceiling (c.before ('\n' :: b)) ts d' ∧ (c.before ('\n' :: b)).Reaches e ∧
      e.rest = b ∧ Grammar.rules.run ceiling source Grammar.trivia e = .ok () d' := by
  induction h with
  | nil c => exact absurd rfl hne
  | @cons c c₁ d t ts h hrest ih =>
      cases hrest with
      | nil =>
          obtain ⟨d', e, hrun, hreach, he, htrivia⟩ :=
            Grammar.exists_run_topLevel_newline h hd hbelow
          exact ⟨d', e, .cons hrun (.nil d'), hreach, he, htrivia⟩
      | @cons _ c₂ _ t' ts' h' hrest' =>
          obtain ⟨x, m, hx, -, -⟩ := Grammar.stands_of_eval_topLevel h'
          have hrun := Grammar.run_topLevel_extend h hx.solid hbelow
          rw [session_of_ok hrun] at hbelow
          obtain ⟨d', e, hforms, hreach, he, htrivia⟩ := ih (List.cons_ne_nil t' ts') hd hbelow
          have hstep := Rules.reaches_of_run hrun
          exact ⟨d', e, .cons hrun hforms, hstep.trans hreach, he, htrivia⟩

/-! ## Two texts -/

/-- The forms of a text up to its end, and the trivia with which another one starts. -/
theorem exists_session_after_newline (ha : (iterForms source a ceiling).ending = none)
    (hbelow : (iterForms source (a ++ '\n' :: b) ceiling).BelowCeiling) :
    ∃ d e, iterForms source (a ++ '\n' :: b) ceiling =
        (session source (a ++ '\n' :: b) d ceiling).prepend (iterForms source a ceiling).forms ∧
      (Cursor.start (a ++ '\n' :: b)).Reaches e ∧ e.rest = b ∧
      Grammar.rules.run ceiling source Grammar.trivia e = .ok () d := by
  rcases iterForms_eq_or source a with ⟨c, htrivia, heq⟩ | hdeep
  · rw [heq] at ha ⊢
    obtain ⟨d, hforms, hd⟩ := exists_formsRead_of_finished ha
    have hgap := Grammar.gap_of_eval_trivia htrivia
    generalize (session source a c ceiling).forms = ts at hforms
    cases hforms with
    | nil =>
        -- There is nothing but trivia in the first text.
        obtain ⟨e, hgap', he⟩ := hgap.newline hd b
        obtain ⟨c', htrivia', heq'⟩ := hbelow.exists_session
        have hresumed := Grammar.eval_trivia_of_gap hgap' htrivia'
        exact ⟨c', e, heq', hgap'.reaches, he, hresumed⟩
    | @cons _ c₁ _ t ts h hrest =>
        obtain ⟨x, m, hx, -, -⟩ := Grammar.stands_of_eval_topLevel h
        have heq' := iterForms_append_eq_session hbelow htrivia hx.solid
        rw [heq'] at hbelow ⊢
        obtain ⟨d', e, hforms', hreach, he, htrivia'⟩ :=
          (FormsRead.cons h hrest).newline (List.cons_ne_nil t ts) hd hbelow
        have hlead := hgap.reaches.extend ('\n' :: b)
        exact ⟨d', e, hforms'.session_eq _, hlead.trans hreach, he, htrivia'⟩
  · rw [hdeep] at ha
    cases ha

/-- A session on two texts that are joined by a newline reads the forms of the first one and then does
what the second one's does, further down: what a report says is the same, too. -/
theorem iterForms_join (ha : (iterForms source a ceiling).ending = none)
    (hbelow : (iterForms source (a ++ '\n' :: b) ceiling).BelowCeiling) :
    iterForms source (a ++ '\n' :: b) ceiling =
        ((iterForms source b ceiling).moved (Position.down (a.count '\n' + 1))
          (a ++ '\n' :: b)).prepend (iterForms source a ceiling).forms ∧
      ∀ r, (iterForms source b ceiling).ending = some (.report r) →
        (r.moved (Position.down (a.count '\n' + 1)) (a ++ '\n' :: b)).message = r.message := by
  constructor
  · obtain ⟨d, e, heq, hreach, he, htrivia⟩ := exists_session_after_newline ha hbelow
    rw [heq] at hbelow ⊢
    rw [session_eq_moved_iterForms he htrivia hbelow, hreach.pos_after_newline he,
      Position.translate_start]
  · intro r hr
    refine Report.moved_message (iterForms_report_text hr) ?_
    have hsplit : a ++ '\n' :: b = (a ++ ['\n']) ++ b := by simp
    rw [hsplit, Position.advance_append, Position.advance_newline]
    exact Position.down_advance (a.count '\n' + 1) Position.start b

/-- A text that ends within a comment. -/
def unendedLine : Text := "(f x) ; note".toList

/-- A text in which a form cannot be read. -/
def strayClose : Text := "y\n)".toList

/-- The form, the other form on the next line, and the error two lines down. -/
theorem iterForms_join_unendedLine :
    (iterForms memorySource unendedLine).ending = none ∧
      (iterForms memorySource (unendedLine ++ '\n' :: strayClose)).BelowCeiling ∧
      (iterForms memorySource (unendedLine ++ '\n' :: strayClose)).forms.map (·.loc) =
        [⟨memorySource, ⟨1, 1⟩, ⟨1, 6⟩⟩, ⟨memorySource, ⟨2, 1⟩, ⟨2, 2⟩⟩] ∧
      (iterForms memorySource strayClose).ending.isSome = true ∧
      iterForms memorySource (unendedLine ++ '\n' :: strayClose) =
          ((iterForms memorySource strayClose).moved (Position.down 1)
            (unendedLine ++ '\n' :: strayClose)).prepend
              (iterForms memorySource unendedLine).forms ∧
        ∀ r, (iterForms memorySource strayClose).ending = some (.report r) →
          (r.moved (Position.down 1) (unendedLine ++ '\n' :: strayClose)).message = r.message := by
  have hending : (iterForms memorySource unendedLine).ending = none := by
    have hnone : (iterForms memorySource unendedLine).ending.isNone = true := by decide +kernel
    exact Option.isNone_iff_eq_none.mp hnone
  have hbelow : (iterForms memorySource (unendedLine ++ '\n' :: strayClose)).BelowCeiling := by
    decide +kernel
  exact ⟨hending, hbelow, by decide +kernel, by decide +kernel, iterForms_join hending hbelow⟩

/-! ## Rows of comments -/

/-- So many comments, one to a line, before something else. -/
def commentRow : Nat → Text → Text
  | 0, r => r
  | n + 1, r => '#' :: ';' :: 'a' :: '\n' :: commentRow n r

theorem commentRow_append (n : Nat) (r s : Text) :
    commentRow n r ++ s = commentRow n (r ++ s) := by
  induction n with
  | zero => rfl
  | succ n ih => simp [commentRow, ih]

theorem commentRow_add (m n : Nat) (r : Text) :
    commentRow (m + n) r = commentRow m (commentRow n r) := by
  induction m with
  | zero => rw [Nat.zero_add, commentRow]
  | succ m ih => rw [Nat.succ_add, commentRow, commentRow, ih]

theorem weight_commentRow (n : Nat) (r : Text) :
    Grammar.weight (commentRow n r) = n + Grammar.weight r := by
  induction n with
  | zero => rw [commentRow, Nat.zero_add]
  | succ n ih =>
      have hsplit : commentRow (n + 1) r = "#;a\n".toList ++ commentRow n r := rfl
      have hone : Grammar.weight "#;a\n".toList = 1 := by decide
      rw [hsplit, Grammar.weight_append, ih, hone]
      omega

/-- The datum of a comment in a row. -/
theorem dropped_rowDatum (hs : Boundary s) : Dropped .datum ('a' :: s) s := by
  have hword : wordPrefix (['a'] ++ s) = some ['a'] :=
    wordPrefix_eq_some_iff.mpr ⟨s, rfl, by decide, hs⟩
  exact .word hword

theorem dropped_commentRow (n : Nat) {r s : Text} (h : Dropped .trivia r s) :
    Dropped .trivia (commentRow n r) s := by
  induction n with
  | zero => exact h
  | succ n ih =>
      exact .comment (.none _) (dropped_rowDatum (boundary_newline _)) (.white (by decide) ih)

theorem eval_trivia_newline (hm : m.rest = '\n' :: s) :
    Grammar.trivia.eval (Grammar.rules.call source k) source m =
      Grammar.trivia.eval (Grammar.rules.call source k) source (m.skip ['\n']) :=
  Grammar.eval_trivia_of_returns (Grammar.returns_white (by decide) hm)

/-- After the first comment of a row the others are skipped, one level further down. -/
theorem eval_trivia_commentRow_succ {n : Nat} {r : Text} (hc : c.rest = commentRow (n + 1) r) :
    ∃ m, m.rest = '\n' :: commentRow n r ∧
      (Grammar.trivia.eval (Grammar.rules.call source k) source c = .interrupted .tooDeep ∨
        ∃ d, Grammar.skip.eval (Grammar.rules.call source k) source m = .ok () d) := by
  have hdatum := dropped_rowDatum (boundary_newline (commentRow n r))
  obtain ⟨m, -, hm, hends⟩ := Grammar.eval_trivia_comment (.none _) hdatum hc
  refine ⟨m, hm, ?_⟩
  rcases hends with hdeep | ⟨d, hskip, -⟩
  · exact Or.inl hdeep
  · exact Or.inr ⟨d, hskip⟩

/-- A row of comments goes down a level with each of them. -/
theorem eval_trivia_commentRow {n : Nat} {r : Text} (hk : k < n) (hc : c.rest = commentRow n r) :
    Grammar.trivia.eval (Grammar.rules.call source k) source c = .interrupted .tooDeep := by
  induction k generalizing n c with
  | zero =>
      obtain ⟨n, rfl⟩ : ∃ j, n = j + 1 := ⟨n - 1, by omega⟩
      obtain ⟨m, -, hdeep | ⟨d, hskip⟩⟩ := eval_trivia_commentRow_succ hc
      · exact hdeep
      · cases hskip
  | succ k ih =>
      obtain ⟨n, rfl⟩ : ∃ j, n = j + 1 := ⟨n - 1, by omega⟩
      obtain ⟨m, hm, hdeep | ⟨d, hskip⟩⟩ := eval_trivia_commentRow_succ hc
      · exact hdeep
      · have hlower : Grammar.trivia.eval (Grammar.rules.call source k) source m = .ok () d := hskip
        have hrow : (m.skip ['\n']).rest = commentRow n r := Cursor.rest_skip (u := ['\n']) hm
        rw [eval_trivia_newline hm, ih (by omega) hrow] at hlower
        cases hlower

/-! ## A word with comments around it -/

theorem skippable_none (V : Tails) : Grammar.Skippable V (fun _ _ => False) 0 :=
  ⟨fun _ _ h => h.elim, fun _ _ h => h.elim⟩

/-- A text with a single word in it, and trivia that the ceiling leaves room for. -/
theorem iterForms_of_word {name : Text} (hbefore : (Cursor.start text).Gap c)
    (hname : wordPrefix c.rest = some name) (hafter : (c.skip name).Gap d) (hd : d.rest = [])
    (hmean : elaborateTopLevel id (.word ⟨source, c.pos, (c.skip name).pos⟩ name) = some t)
    (hdepth : t.depth ≤ ceiling) (hroom : Grammar.weight text < ceiling) :
    iterForms source text ceiling = ⟨[t], none⟩ := by
  obtain ⟨r, hr⟩ := exists_of_wordPrefix hname
  have hrest := Cursor.rest_skip hr
  obtain ⟨u, hu⟩ := hbefore.reaches
  have hweight : Grammar.weight text = Grammar.weight u + Grammar.weight c.rest :=
    Grammar.weight_suffix hu.rest
  have hweight' : Grammar.weight c.rest = Grammar.weight name + Grammar.weight r :=
    Grammar.weight_suffix hr
  have hstands : (SExpr.word ⟨source, c.pos, (c.skip name).pos⟩ name).StandsBy
      (fun _ _ => False) source c (c.skip name) := ⟨hname, rfl, rfl⟩
  have hlead : Parser.Returns (Grammar.rules.call source ceiling) source (.empty False)
      Grammar.trivia (.start text) () c :=
    Grammar.returns_trivia hbefore (clear_of_solid hstands.solid.1) (Or.inr (by
      show Grammar.weight text ≤ _
      omega))
  have hskip : Parser.Returns (Grammar.rules.call source ceiling) source (.empty False)
      Grammar.skip (c.skip name) () d :=
    Grammar.returns_skip hafter (clear_of_solid (solid_of_nil hd)) (Or.inr (by
      rw [hrest]
      omega))
  have hform : Parser.Returns (Grammar.rules.call source ceiling) source (.empty False)
      Grammar.topLevel c t d :=
    Parser.Reads.close (Grammar.reads_topLevel (skippable_none _) hstands hmean
      (closed_of_empty _ _) (Or.inr hdepth)) hskip
  rw [iterForms_eq_session hlead.eval_ok, session_of_ok hform.eval_ok, session_of_nil hd]
  rfl

/-- A word before a row of comments is not read where the row is too long. -/
theorem eval_topLevel_word_commentRow {n : Nat} {r : Text} (hk : k ≤ n)
    (hc : c.rest = 'x' :: '\n' :: commentRow n r) :
    Grammar.topLevel.eval (Grammar.rules.call source k) source c = .interrupted .tooDeep := by
  have hm : (c.skip ['x']).rest = '\n' :: commentRow n r := Cursor.rest_skip (u := ['x']) hc
  have hrow : ((c.skip ['x']).skip ['\n']).rest = commentRow n r :=
    Cursor.rest_skip (u := ['\n']) hm
  have hname : wordPrefix c.rest = some ['x'] :=
    wordPrefix_eq_some_iff.mpr ⟨_, hc, by decide, boundary_newline _⟩
  have hx : (SExpr.word ⟨source, c.pos, (c.skip ['x']).pos⟩ ['x']).Stands source c
      (c.skip ['x']) := ⟨hname, rfl, rfl⟩
  rcases Grammar.eval_topLevel_of_stands hx rfl with hdeep | ⟨d, hskip, -⟩
  · exact hdeep
  · obtain ⟨j, rfl, hlower⟩ := Grammar.eval_skip_ok hskip
    rw [eval_trivia_newline hm, eval_trivia_commentRow (by omega) hrow] at hlower
    cases hlower

theorem iterForms_word_commentRow {n : Nat} {r : Text} (hn : ceiling ≤ n) :
    (iterForms source ('x' :: '\n' :: commentRow n r) ceiling).forms = [] := by
  have hsolid : Solid (Cursor.start ('x' :: '\n' :: commentRow n r)).rest :=
    solid_cons (by decide) _
  rw [iterForms_eq_session (Grammar.eval_trivia_of_solid hsolid)]
  have hstep := session_startsWith source ceiling ('x' :: '\n' :: commentRow n r)
    (.start ('x' :: '\n' :: commentRow n r))
  generalize session source _ _ ceiling = whole at hstep ⊢
  cases hstep with
  | stop hnil => rfl
  | error hne herror => rfl
  | form h => cases h.symm.trans (eval_topLevel_word_commentRow hn rfl)

/-! ## Two rows that are one -/

/-- A word, and comments after it up to the end of the text. -/
def wordAndRow : Text := 'x' :: '\n' :: commentRow 1599 "#;a".toList

/-- Comments, and a word after them. -/
def rowAndWord : Text := commentRow 1600 ['y']

theorem wordAndRow_newline_rowAndWord :
    wordAndRow ++ '\n' :: rowAndWord = 'x' :: '\n' :: commentRow 3200 ['y'] := by
  have hrow : commentRow 3200 ['y'] = commentRow 1599 (commentRow 1601 ['y']) :=
    commentRow_add 1599 1601 ['y']
  have hlast : "#;a".toList ++ '\n' :: rowAndWord = commentRow 1601 ['y'] := rfl
  rw [wordAndRow, List.cons_append, List.cons_append, commentRow_append, hlast, hrow]

theorem iterForms_wordAndRow : iterForms memorySource wordAndRow =
    ⟨[⟨⟨memorySource, ⟨1, 1⟩, ⟨1, 2⟩⟩, .expr ⟨⟨memorySource, ⟨1, 1⟩, ⟨1, 2⟩⟩, .var ['x']⟩⟩], none⟩ := by
  have hlast : Dropped .trivia "#;a".toList [] :=
    .comment (.none _) (dropped_rowDatum (by decide)) (.none [])
  have hafter : Dropped .trivia ('\n' :: commentRow 1599 "#;a".toList) [] :=
    .white (by decide) (dropped_commentRow 1599 hlast)
  have hname : wordPrefix wordAndRow = some ['x'] :=
    wordPrefix_eq_some_iff.mpr ⟨_, rfl, by decide, boundary_newline _⟩
  have hm : ((Cursor.start wordAndRow).skip ['x']).rest =
      '\n' :: commentRow 1599 "#;a".toList := rfl
  rw [← hm] at hafter
  obtain ⟨d, hgap, hd⟩ := Cursor.exists_gap_of_dropped hafter
  have hweight : Grammar.weight wordAndRow = 1600 := by
    have hsplit : wordAndRow = ['x', '\n'] ++ commentRow 1599 "#;a".toList := rfl
    rw [hsplit, Grammar.weight_append, weight_commentRow]
    rfl
  refine iterForms_of_word (Cursor.Gap.refl _) hname hgap hd rfl (Nat.zero_le _) ?_
  rw [hweight]
  decide

theorem iterForms_rowAndWord : (iterForms memorySource rowAndWord).ending = none := by
  obtain ⟨c, hgap, hc⟩ : ∃ c, (Cursor.start rowAndWord).Gap c ∧ c.rest = ['y'] :=
    Cursor.exists_gap_of_dropped (dropped_commentRow 1600 (.none ['y']))
  have hname : wordPrefix c.rest = some ['y'] := by
    rw [hc]
    decide
  have hd : (c.skip ['y']).rest = [] := Cursor.rest_skip (u := ['y']) hc
  have hweight : Grammar.weight rowAndWord = 1600 := by
    rw [rowAndWord, weight_commentRow]
    rfl
  rw [iterForms_of_word hgap hname (Cursor.Gap.refl _) hd rfl (Nat.zero_le _) (by
    rw [hweight]
    decide)]

/-- Two texts are read to their ends, and nothing of the text that they are joined to is read. -/
theorem iterForms_join_rows :
    (iterForms memorySource wordAndRow).ending = none ∧
      (iterForms memorySource rowAndWord).ending = none ∧
      iterForms memorySource (wordAndRow ++ '\n' :: rowAndWord) ≠
        ((iterForms memorySource rowAndWord).moved
          (Position.down (wordAndRow.count '\n' + 1))
          (wordAndRow ++ '\n' :: rowAndWord)).prepend (iterForms memorySource wordAndRow).forms := by
  have hnone : (iterForms memorySource (wordAndRow ++ '\n' :: rowAndWord)).forms = [] := by
    rw [wordAndRow_newline_rowAndWord]
    exact iterForms_word_commentRow (by decide)
  refine ⟨by rw [iterForms_wordAndRow], iterForms_rowAndWord, fun heq => ?_⟩
  rw [heq, FormSequence.prepend_forms, iterForms_wordAndRow] at hnone
  exact List.append_ne_nil_of_left_ne_nil (List.cons_ne_nil _ _) _ hnone

end PieSyntax
