import Mathlib.Data.Nat.Digits.Defs
import PieSyntax.Proofs.Draws
import PieSyntax.Proofs.Written

/-!
# Generated programs are read

The generator keeps alphabets, separators and keywords of its own, and a table of the numbers of parts,
which agree with the grammar.  What it draws is an S-expression that is written down and that means
something: a name, an expression of bounded depth, or a top-level form.  Each production of the
generator has a lemma that says so, and the lemmas are put together as the productions are.

Which forms a program has is decided by the first draws for each of them.  `outline` makes these draws
alone, so the forms that are read can be compared with those that were drawn.

## Main results

* `separator_of_isGap` — what the generator writes between two parts is trivia.
* `yields_composite`, `yields_expr` — expressions, down to any depth.
* `exists_forms_line` — the lines of a program, and the forms that were drawn for them.
* `generated_accepted` — every program and every expression that is drawn is read.
-/

namespace PieSyntax

namespace Sample

open Draw

variable {n : Nat} {α β : Type}

/-! ## Separators -/

/-- What the generator writes between two parts of a form, or after a form. -/
def IsGap (g : Text) : Prop := g ∈ separators ++ lineEndings

theorem dropped_word (name r : Text) (h : wordPrefix (name ++ r) = some name) :
    Dropped .datum (name ++ r) r :=
  .word h

theorem dropped_digits (run r : Text) (h : digitPrefix (run ++ r) = some run) :
    Dropped .datum (run ++ r) r :=
  .digits h

theorem dropped_ignored : Dropped .datum "(ignored (x 1))".toList [] := by
  have hone : Dropped .datum "1))".toList "))".toList := dropped_digits ['1'] _ (by decide)
  have hx : Dropped .datum "x 1))".toList " 1))".toList := dropped_word ['x'] _ (by decide)
  have hinner : Dropped .datum "(x 1))".toList ")".toList :=
    .group (.none _) (.cons hx (.white (by decide) (.none _)) (.cons hone (.none _) (.nil _)))
  have hword : Dropped .datum "ignored (x 1))".toList " (x 1))".toList :=
    dropped_word "ignored".toList _ (by decide)
  exact .group (.none _) (.cons hword (.white (by decide) (.none _))
    (.cons hinner (.none _) (.nil _)))

theorem separator_of_isGap {g : Text} (h : IsGap g) : Separator g := by
  have hblank : ∀ {ch : Char}, ch ∈ whitespace → Separator [ch] := .lastWhite
  have hline : ∀ body : Text, '\n' ∉ body → Separator (';' :: (body ++ ['\n'])) :=
    fun _ => .lastLine
  have hskip : Dropped .datum "skip".toList [] := dropped_word "skip".toList [] (by decide)
  simp only [IsGap, separators, lineEndings, List.map_cons, List.map_nil, List.cons_append,
    List.nil_append, List.mem_cons, List.not_mem_nil, or_false] at h
  rcases h with rfl | rfl | rfl | rfl | rfl | rfl | rfl | rfl | rfl | rfl | rfl | rfl | rfl | rfl
  · exact hblank (by decide)
  · exact hblank (by decide)
  · exact hblank (by decide)
  · exact hblank (by decide)
  · exact hblank (by decide)
  · exact .white (by decide) (hblank (by decide))
  · exact .white (by decide) (hblank (by decide))
  · exact .white (by decide) (hline " note".toList (by decide))
  · exact .white (by decide) (.comment (.none _) dropped_ignored (hblank (by decide)))
  · exact .white (by decide) (.comment (.none _) hskip (hblank (by decide)))
  · exact hblank (by decide)
  · exact .white (by decide) (hblank (by decide))
  · exact hblank (by decide)
  · exact .white (by decide) (hline "; comment".toList (by decide))

/-- A gap that takes up three levels at most. -/
def SmallGap (c d : Cursor) : Prop :=
  c.Gap d ∧ Grammar.weight c.rest ≤ Grammar.weight d.rest + 3

theorem fits_isGap : Fits IsGap SmallGap := by
  have hweight : ∀ g ∈ separators ++ lineEndings, Grammar.weight g ≤ 3 := by decide
  refine ⟨fun g => separator_of_isGap, fun c g s hc hg => ⟨?_, ?_⟩⟩
  · exact fits_separator.gap c g s hc (hg.imp_right separator_of_isGap)
  · rw [Cursor.rest_skip hc, hc, Grammar.weight_append]
    rcases hg with rfl | hg
    · show 0 + _ ≤ _
      omega
    · have hsmall := hweight g hg
      omega

theorem skippable_smallGap (V : Tails) : Grammar.Skippable V SmallGap 4 := by
  refine ⟨fun c d h => h.1, fun c d h => Or.inr ?_⟩
  have hweight := h.2
  omega

/-! ## Parts and lists of them -/

/-- The S-expression is made of words and numerals, and the text is how it is written down. -/
structure Spells (x : SExpr Unit) (s : Text) : Prop where
  lexical : x.Lexical
  written : x.Written IsGap s

theorem spells_word {name : Text} (h : IsWord name) : Spells (.word () name) name := by
  refine ⟨fun y hy => ?_, rfl⟩
  obtain rfl := List.mem_singleton.mp hy
  exact h

theorem spells_quoted {name : Text} (h : IsWord name) : Spells (.quoted () name) ('\'' :: name) := by
  refine ⟨fun y hy => ?_, rfl⟩
  obtain rfl := List.mem_singleton.mp hy
  exact h

theorem Spells.of_spelledBy {h : Head} {k : Text} (hk : h.SpelledBy (.word () k)) :
    Spells (.word () k) k :=
  ⟨hk.lexical, rfl⟩

theorem lexical_of_forall₂ {xs : List (SExpr Unit)} {parts : List Text}
    (h : List.Forall₂ Spells xs parts) : ∀ x ∈ xs, x.Lexical := by
  induction h with
  | nil => simp
  | cons hx _ ih => exact List.forall_mem_cons.mpr ⟨hx.lexical, ih⟩

/-- Parts with a separator before each go on after a first one. -/
theorem yields_separated {xs : List (SExpr Unit)} {parts : List Text}
    (h : List.Forall₂ Spells xs parts) :
    Yields (separated parts) fun s => ∀ (x : SExpr Unit) (u : Text), x.Written IsGap u →
      SExpr.AllWritten IsGap (x :: xs) (u ++ s) := by
  induction h with
  | nil => exact yields_pure fun x u hu => ⟨u, [], [], hu, Or.inr ⟨rfl, rfl⟩, rfl, rfl⟩
  | @cons y part xs parts hy _ ih =>
      refine (yields_oneOf (by decide) [' ']).bind fun g hg => ih.bind fun s hs => yields_pure ?_
      intro x u hu
      exact ⟨u, g, part ++ s, hu, Or.inl (List.mem_append_left _ hg), hs y part hy.written, by simp⟩

theorem yields_parenthesized {x : SExpr Unit} {head : Text} {xs : List (SExpr Unit)}
    {parts : List Text} (hx : Spells x head) (h : List.Forall₂ Spells xs parts) :
    Yields (parenthesized head parts) (Spells (.list () (x :: xs))) := by
  refine (yields_separated h).bind fun body hbody => yields_pure ⟨?_, ?_⟩
  · exact SExpr.lexical_list (List.forall_mem_cons.mpr ⟨hx.lexical, lexical_of_forall₂ h⟩)
  · exact ⟨head ++ body, hbody x head hx.written, rfl⟩

theorem allWritten_intercalate {xs : List (SExpr Unit)} {parts : List Text}
    (h : List.Forall₂ Spells xs parts) : SExpr.AllWritten IsGap xs ([' '].intercalate parts) := by
  induction h with
  | nil => rfl
  | @cons x part xs parts hx hrest ih =>
      cases hrest with
      | nil => exact ⟨part, [], [], hx.written, Or.inr ⟨rfl, rfl⟩, rfl, by simp⟩
      | cons hy hrest =>
          refine ⟨part, [' '], _, hx.written, Or.inl ?_, ih, by simp⟩
          exact List.mem_append_left _ (by decide)

theorem spells_spaced {xs : List (SExpr Unit)} {parts : List Text}
    (h : List.Forall₂ Spells xs parts) : Spells (.list () xs) (spaced parts) :=
  ⟨SExpr.lexical_list (lexical_of_forall₂ h), _, allWritten_intercalate h, rfl⟩

/-! ## What the parts mean -/

/-- The text is how something is written down that is read as a value, nested at most `n` levels. -/
def Means (read : SExpr Unit → Option β) (depth : β → Nat) (n : Nat) (s : Text) : Prop :=
  ∃ x b, Spells x s ∧ read x = some b ∧ depth b ≤ n

theorem Means.mono {read : SExpr Unit → Option β} {depth : β → Nat} {m : Nat} {s : Text}
    (h : Means read depth n s) (hle : n ≤ m) : Means read depth m s := by
  obtain ⟨x, b, hx, hb, hdepth⟩ := h
  exact ⟨x, b, hx, hb, Nat.le_trans hdepth hle⟩

theorem exists_forall₂_means {read : SExpr Unit → Option β} {depth : β → Nat} {parts : List Text}
    (h : ∀ s ∈ parts, Means read depth n s) :
    ∃ xs bs, List.Forall₂ Spells xs parts ∧ List.Forall₂ (fun x b => read x = some b) xs bs ∧
      bs.length = parts.length ∧ ∀ b ∈ bs, depth b ≤ n := by
  induction parts with
  | nil => exact ⟨[], [], .nil, .nil, rfl, by simp⟩
  | cons s parts ih =>
      obtain ⟨⟨x, b, hx, hb, hdepth⟩, hparts⟩ := List.forall_mem_cons.mp h
      obtain ⟨xs, bs, hxs, hbs, hlen, hdepths⟩ := ih hparts
      exact ⟨x :: xs, b :: bs, .cons hx hxs, .cons hb hbs, congrArg (· + 1) hlen,
        List.forall_mem_cons.mpr ⟨hdepth, hdepths⟩⟩

/-- The text is an expression, nested at most `n` levels. -/
abbrev IsExpression (n : Nat) : Text → Prop := Means (elaborate fun _ => .nowhere) exprDepth n

/-- The text is a name with its type between parentheses. -/
abbrev IsPair (n : Nat) : Text → Prop :=
  Means (elaboratePair fun _ => .nowhere) TypedBinder.depth n

theorem elaborateAll_of_forall₂ {xs : List (SExpr Unit)} {es : List Expr}
    (h : List.Forall₂ (fun x e => elaborate (fun _ => .nowhere) x = some e) xs es) :
    elaborateAll (fun _ => .nowhere) xs = some es := by
  induction h with
  | nil => rfl
  | cons he _ ih => rw [elaborateAll, he, ih]; rfl

theorem elaboratePairs_of_forall₂ {xs : List (SExpr Unit)} {bs : List TypedBinder}
    (h : List.Forall₂ (fun x b => elaboratePair (fun _ => .nowhere) x = some b) xs bs) :
    elaboratePairs (fun _ => .nowhere) xs = some bs := by
  induction h with
  | nil => rfl
  | cons hb _ ih => rw [elaboratePairs, hb, ih]; rfl

theorem exprsDepth_le {es : List Expr} (h : ∀ e ∈ es, exprDepth e ≤ n) : exprsDepth es ≤ n := by
  induction es with
  | nil => exact Nat.zero_le n
  | cons e es ih =>
      obtain ⟨he, hes⟩ := List.forall_mem_cons.mp h
      exact Nat.max_le.mpr ⟨he, ih hes⟩

theorem typedBindersDepth_le {bs : List TypedBinder} (h : ∀ b ∈ bs, b.depth ≤ n) :
    typedBindersDepth bs ≤ n := by
  induction bs with
  | nil => exact Nat.zero_le n
  | cons b bs ih =>
      obtain ⟨hb, hbs⟩ := List.forall_mem_cons.mp h
      exact Nat.max_le.mpr ⟨hb, ih hbs⟩

/-- A list that means a node is an expression. -/
theorem isExpression_list (node : Node) {items : List (SExpr Unit)} {s : Text}
    (hs : Spells (.list () items) s) (hmean : elaborateList (fun _ => .nowhere) items = some node)
    (hdepth : node.depth ≤ n) : IsExpression n s :=
  ⟨_, ⟨.nowhere, node⟩, hs, by rw [elaborate, hmean]; rfl, hdepth⟩

/-! ## Lists by their heads -/

variable {head : Text} {parts : List Text} {s : Text}

theorem yields_form {f : Form} (hlen : parts.length = f.arity)
    (hparts : ∀ s ∈ parts, IsExpression n s) :
    Yields (parenthesized f.keyword.toList parts) (IsExpression (n + 1)) := by
  have hhead : (Head.form f).SpelledBy (.word () f.keyword.toList) :=
    ⟨f.keyword, List.mem_singleton_self _, rfl⟩
  obtain ⟨xs, es, hxs, hes, hlength, hdepth⟩ := exists_forall₂_means hparts
  obtain ⟨args, hargs⟩ := Arguments.exists_ofList (hlength.trans hlen)
  refine (yields_parenthesized (Spells.of_spelledBy hhead) hxs).mono fun s hs => ?_
  refine isExpression_list (.form f args) hs ?_ ?_
  · rw [elaborateList_form _ hhead.head?, elaborateAll_of_forall₂ hes]
    show formNode f es = _
    rw [formNode, hargs]
    rfl
  · rw [Node.depth, Arguments.depth_eq, Arguments.toList_of_ofList hargs]
    exact Nat.succ_le_succ (exprsDepth_le hdepth)

theorem yields_arrow (hhead : Head.arrow.SpelledBy (.word () head)) (hlen : 2 ≤ parts.length)
    (hparts : ∀ s ∈ parts, IsExpression n s) :
    Yields (parenthesized head parts) (IsExpression (n + 1)) := by
  obtain ⟨xs, es, hxs, hes, hlength, hdepth⟩ := exists_forall₂_means hparts
  refine (yields_parenthesized (Spells.of_spelledBy hhead) hxs).mono fun s hs => ?_
  obtain ⟨e, e', rest, rfl⟩ : ∃ e e' rest, es = e :: e' :: rest := by
    match es with
    | [] => rw [List.length_nil] at hlength; omega
    | [_] => rw [List.length_singleton] at hlength; omega
    | e :: e' :: rest => exact ⟨e, e', rest, rfl⟩
  refine isExpression_list (.arrow e (e' :: rest)) hs ?_ ?_
  · rw [elaborateList_arrow _ hhead.head?, elaborateAll_of_forall₂ hes]
    rfl
  · exact Nat.succ_le_succ (exprsDepth_le hdepth)

/-- An application is headed by any expression: no keyword is one. -/
theorem yields_application (hhead : IsExpression n head) (hlen : 1 ≤ parts.length)
    (hparts : ∀ s ∈ parts, IsExpression n s) :
    Yields (parenthesized head parts) (IsExpression (n + 1)) := by
  obtain ⟨x, e, hx, he, hdepth'⟩ := hhead
  obtain ⟨xs, es, hxs, hes, hlength, hdepth⟩ := exists_forall₂_means hparts
  refine (yields_parenthesized hx hxs).mono fun s hs => ?_
  obtain ⟨e', rest, rfl⟩ := List.exists_cons_of_length_pos (hlength ▸ hlen : 0 < es.length)
  refine isExpression_list (.app e (e' :: rest)) hs ?_ ?_
  · rw [elaborateList_application _ (head?_eq_none_of_elaborate he).1, he,
      elaborateAll_of_forall₂ hes]
    rfl
  · exact Nat.succ_le_succ (Nat.max_le.mpr ⟨hdepth', exprsDepth_le hdepth⟩)

theorem elaborateName_of_isName {name : Text} (h : IsName name) :
    elaborateName (fun _ => .nowhere) (.word () name) = some ⟨.nowhere, name⟩ :=
  if_pos h.2

theorem elaborateNames_of_isName {names : List Text} (h : ∀ name ∈ names, IsName name) :
    elaborateNames (fun _ => .nowhere) (names.map (.word ())) =
      some (names.map fun name => ⟨.nowhere, name⟩) := by
  induction names with
  | nil => rfl
  | cons name names ih =>
      obtain ⟨hname, hnames⟩ := List.forall_mem_cons.mp h
      rw [List.map_cons, elaborateNames, elaborateName_of_isName hname, ih hnames]
      rfl

theorem yields_lambda {names : List Text} {body : Text}
    (hhead : Head.lambda.SpelledBy (.word () head)) (hlen : 1 ≤ names.length)
    (hnames : ∀ name ∈ names, IsName name) (hbody : IsExpression n body) :
    Yields (parenthesized head [spaced names, body]) (IsExpression (n + 1)) := by
  obtain ⟨x, e, hx, he, hdepth⟩ := hbody
  have hwords : List.Forall₂ Spells (names.map (.word ())) names :=
    List.forall₂_map_left_iff.mpr (List.forall₂_same.mpr fun name hname =>
      spells_word (hnames name hname).1)
  have hparts := List.Forall₂.cons (spells_spaced hwords) (.cons hx .nil)
  refine (yields_parenthesized (Spells.of_spelledBy hhead) hparts).mono fun s hs => ?_
  obtain ⟨name, names, rfl⟩ := List.exists_cons_of_length_pos hlen
  refine isExpression_list (.lambda ((name :: names).map fun name => ⟨.nowhere, name⟩) e) hs
    ?_ (Nat.succ_le_succ hdepth)
  rw [elaborateList_lambda _ hhead.head?, elaborateBinders, elaborateNames_of_isName hnames, he]
  rfl

theorem isPair_spaced {name type : Text} (hname : IsName name) (htype : IsExpression n type) :
    IsPair n (spaced [name, type]) := by
  obtain ⟨x, e, hx, he, hdepth⟩ := htype
  refine ⟨_, .mk .nowhere name e, spells_spaced (.cons (spells_word hname.1) (.cons hx .nil)), ?_,
    hdepth⟩
  rw [elaboratePair, elaborateName_of_isName hname, he]
  rfl

theorem yields_quantified {q : Quantifier} {pairs : List Text} {body : Text}
    (hhead : (Head.quantifier q).SpelledBy (.word () head)) (hlen : 1 ≤ pairs.length)
    (hpairs : ∀ s ∈ pairs, IsPair n s) (hbody : IsExpression n body) :
    Yields (parenthesized head [spaced pairs, body]) (IsExpression (n + 1)) := by
  obtain ⟨x, e, hx, he, hdepth⟩ := hbody
  obtain ⟨xs, bs, hxs, hbs, hlength, hdepths⟩ := exists_forall₂_means hpairs
  have hparts := List.Forall₂.cons (spells_spaced hxs) (.cons hx .nil)
  refine (yields_parenthesized (Spells.of_spelledBy hhead) hparts).mono fun s hs => ?_
  obtain ⟨b, rest, rfl⟩ := List.exists_cons_of_length_pos (hlength ▸ hlen : 0 < bs.length)
  refine isExpression_list (.quantified q (b :: rest) e) hs ?_ ?_
  · rw [elaborateList_quantifier _ hhead.head?, elaborateTypedBinders,
      elaboratePairs_of_forall₂ hbs, he]
    rfl
  · exact Nat.succ_le_succ (Nat.max_le.mpr ⟨typedBindersDepth_le hdepths, hdepth⟩)

/-! ## Expressions -/

theorem isExpression_name {name : Text} (h : IsName name) : IsExpression n name := by
  refine ⟨_, ⟨.nowhere, .var name⟩, spells_word h.1, ?_, Nat.zero_le n⟩
  rw [elaborate, elaborateWord, (lookup_eq_none_of_isFreeName h.2).1, if_pos h.2]
  rfl

theorem isExpression_quoted {name : Text} (h : IsWord name) : IsExpression n ('\'' :: name) :=
  ⟨_, ⟨.nowhere, .tick name⟩, spells_quoted h, rfl, Nat.zero_le n⟩

theorem isExpression_numeral {value : Nat} (h : value ≤ 5000) :
    IsExpression n (Nat.toDigits 10 value) := by
  have hshort : (Nat.toDigits 10 value).length ≤ 4 :=
    Nat.toDigits_length 10 value 4 (by omega) (by omega)
  have hlen : (Nat.toDigits 10 value).length ≤ maxDigits := Nat.le_trans hshort (by decide)
  have hspelled : NumeralSpelledBy value (.numeral () (Nat.toDigits 10 value)) := ⟨0, rfl, hlen⟩
  exact ⟨_, _, ⟨hspelled.lexical, rfl⟩, hspelled.elaborate, Nat.zero_le n⟩

theorem isExpression_constant (c : Constant) : IsExpression n c.keyword.toList := by
  refine ⟨_, ⟨.nowhere, .constant c⟩, spells_word (isWord_constant c), ?_, Nat.zero_le n⟩
  rw [elaborate, elaborateWord, lookup_constant]
  rfl

theorem sortedConstants_ne_nil : sortedConstants ≠ [] := by
  rw [sortedConstants, ← List.length_pos_iff, List.length_mergeSort]
  decide

theorem sortedForms_ne_nil : sortedForms ≠ [] := by
  rw [sortedForms, ← List.length_pos_iff, List.length_mergeSort]
  decide

/-- A form is drawn by its keyword, and its parts by the number that goes with it. -/
theorem yields_sortedForms : Yields (oneOf sortedForms "::") fun k =>
    ∃ f : Form, f.keyword = k ∧ f.arity = formArity k := by
  refine (yields_oneOf sortedForms_ne_nil _).mono fun k hk => ?_
  obtain ⟨f, rfl⟩ := exists_form_of_mem_sortedForms hk
  exact ⟨f, rfl, (formArity_keyword f).symm⟩

theorem yields_leaf : Yields leaf (IsExpression n) := by
  refine (yields_below (by omega)).bind fun k _ => ?_
  refine yields_ite (yields_name.mono fun _ => isExpression_name) (yields_ite ?_ (yields_ite ?_ ?_))
  · exact yields_name.bind fun name h => yields_pure (isExpression_quoted h.1)
  · exact (yields_between (by omega)).bind fun value h => yields_pure (isExpression_numeral h.2)
  · exact (yields_oneOf sortedConstants_ne_nil _).bind fun c _ =>
      yields_pure (isExpression_constant c)

theorem yields_keywordOf {h : Head} {keywords : List String} (hall : keywords = h.keywords)
    (hne : keywords ≠ []) : Yields (keywordOf keywords) fun k => h.SpelledBy (.word () k) :=
  (yields_oneOf hne _).bind fun keyword hkeyword =>
    yields_pure ⟨keyword, hall ▸ hkeyword, rfl⟩

theorem yields_quantifierKeyword : Yields (keywordOf quantifierKeywords) fun k =>
    ∃ q, (Head.quantifier q).SpelledBy (.word () k) := by
  refine (yields_oneOf (by decide) _).bind fun keyword hkeyword => yields_pure ?_
  rw [quantifierKeywords_eq] at hkeyword
  rcases List.mem_append.mp hkeyword with hpi | hsigma
  · exact ⟨.pi, keyword, hpi, rfl⟩
  · exact ⟨.sigma, keyword, hsigma, rfl⟩

/-- A parenthesized expression is one level deeper than its parts. -/
theorem yields_composite {part : Draw Text} (h : Yields part (IsExpression n)) :
    Yields (composite part) (IsExpression (n + 1)) := by
  have hparts := h.times
  refine (yields_below (by omega)).bind fun k _ => ?_
  refine yields_ite ?lambda (yields_ite ?quantified (yields_ite ?arrow (yields_ite ?app ?form)))
  case lambda =>
    exact (yields_keywordOf lambdaKeywords_eq (by decide)).bind fun head hhead =>
      (yields_between (by omega)).bind fun count hcount =>
        (yields_name.times count).bind fun names hnames => h.bind fun body hbody =>
          yields_lambda hhead (hnames.1 ▸ hcount.1) hnames.2 hbody
  case quantified =>
    have hpair : Yields (do
        let name ← name
        let type ← part
        return spaced [name, type]) (IsPair n) :=
      yields_name.bind fun _ hname => h.bind fun _ htype => yields_pure (isPair_spaced hname htype)
    exact yields_quantifierKeyword.bind fun head ⟨q, hhead⟩ =>
      (yields_between (by omega)).bind fun count hcount =>
        (hpair.times count).bind fun pairs hpairs => h.bind fun body hbody =>
          yields_quantified hhead (hpairs.1 ▸ hcount.1) hpairs.2 hbody
  case arrow =>
    exact (yields_keywordOf arrowKeywords_eq (by decide)).bind fun head hhead =>
      (yields_between (by omega)).bind fun count hcount =>
        (hparts count).bind fun parts hparts => yields_arrow hhead (hparts.1 ▸ hcount.1) hparts.2
  case app =>
    exact h.bind fun head hhead => (yields_between (by omega)).bind fun count hcount =>
      (hparts count).bind fun parts hparts =>
        yields_application hhead (hparts.1 ▸ hcount.1) hparts.2
  case form =>
    refine yields_sortedForms.bind fun keyword ⟨f, hkeyword, harity⟩ => ?_
    subst hkeyword
    exact (hparts _).bind fun parts hparts =>
      yields_form (hparts.1.trans harity.symm) hparts.2

/-- What is drawn as an expression is one, and is nested no deeper than it may be. -/
theorem yields_expr (depth : Nat) : Yields (expr depth) (IsExpression depth) := by
  induction depth with
  | zero => exact yields_leaf
  | succ depth ih =>
      exact (yields_below (by omega)).bind fun k _ => yields_ite yields_leaf (yields_composite ih)

/-! ## Top-level forms -/

/-- What a top-level form is, and the name that it introduces. -/
inductive Outline where
  | claim (name : Text)
  | define (name : Text)
  | checkSame
  | expr
  deriving DecidableEq, Repr

end Sample

/-- The outline of a statement that was read. -/
def Statement.outline : Statement → Sample.Outline
  | .claim name _ => .claim name.value
  | .define name _ => .define name.value
  | .checkSame _ _ _ => .checkSame
  | .expr _ => .expr

/-- The outline of a top-level form that was read. -/
def TopLevel.outline (t : TopLevel) : Sample.Outline := t.value.outline

theorem TopLevel.outline_bare (t : TopLevel) : t.bare.outline = t.outline := by
  obtain ⟨loc, statement⟩ := t
  cases statement <;> rfl

namespace Sample

open Draw

/-- The first draws for a top-level form: which branch is taken, and with which name. -/
def outline : Draw Outline := do
  let k ← thousandths
  if k < 350 then
    let n ← name
    return .claim n
  else if k < 700 then
    let n ← name
    return .define n
  else if k < 850 then return .checkSame
  else return .expr

/-- The other draws for a top-level form. -/
def formOf : Outline → Draw Text
  | .claim n => do
    let type ← expr 3
    parenthesized "claim".toList [n, type]
  | .define n => do
    let value ← expr 3
    parenthesized "define".toList [n, value]
  | .checkSame => do
    let parts ← (expr 2).times 3
    parenthesized "check-same".toList parts
  | .expr => expr 3

/-- A top-level form is drawn by its outline first. -/
theorem topLevel_eq : topLevel = outline >>= formOf := by
  rw [topLevel, outline, bind_assoc]
  refine congrArg (thousandths >>= ·) (funext fun k => ?_)
  split
  · simp only [bind_assoc, pure_bind, formOf]
  · split
    · simp only [bind_assoc, pure_bind, formOf]
    · split <;> simp only [pure_bind, formOf]

/-- The text is a top-level form with the given outline, nested at most four levels. -/
def IsForm (o : Outline) (s : Text) : Prop :=
  ∃ x t, Spells x s ∧ elaborateTopLevel (fun _ => .nowhere) x = some t ∧ t.outline = o ∧ t.depth ≤ 4

/-- A list that a command heads is a form. -/
theorem isForm_command (statement : Statement) {c : Command} {items : List (SExpr Unit)} {s : Text}
    (hs : Spells (.list () (.word () c.keyword.toList :: items)) s)
    (hmean : elaborateCommand (fun _ => .nowhere) c items = some statement)
    (hdepth : statement.depth ≤ 4) : IsForm statement.outline s := by
  refine ⟨_, ⟨.nowhere, statement⟩, hs, ?_, rfl, hdepth⟩
  rw [elaborateTopLevel, SExpr.asCommand?, SExpr.command?, lookup_command, Option.map_some]
  show (elaborateCommand (fun _ => .nowhere) c items).map _ = _
  rw [hmean]
  rfl

/-- An expression is a form, since no command heads it. -/
theorem isForm_expression {s : Text} (h : IsExpression 4 s) : IsForm .expr s := by
  obtain ⟨x, e, hx, he, hdepth⟩ := h
  refine ⟨x, ⟨e.loc, .expr e⟩, hx, ?_, rfl, hdepth⟩
  rw [elaborateTopLevel, asCommand?_eq_none_of_elaborate he, he]
  rfl

/-- A command with a name and an expression after it. -/
theorem yields_naming {c : Command} {mk : Located Text → Expr → Statement} {o : Outline} {n : Text}
    {keyword : String} (hkeyword : c.keyword = keyword) (hname : IsName n)
    (hc : ∀ x y, elaborateCommand (fun _ => .nowhere) c [x, y] =
      (elaborateName (fun _ => .nowhere) x).bind fun name : Located Text =>
        (elaborate (fun _ => .nowhere) (y : SExpr Unit)).map (mk name))
    (hmk : ∀ e, (mk ⟨.nowhere, n⟩ e).outline = o ∧ (mk ⟨.nowhere, n⟩ e).depth = exprDepth e + 1) :
    Yields (expr 3 >>= fun body => parenthesized keyword.toList [n, body]) (IsForm o) := by
  subst hkeyword
  refine (yields_expr 3).bind fun body ⟨x, e, hx, he, hdepth⟩ => ?_
  refine (yields_parenthesized (spells_word (isWord_command _))
    (.cons (spells_word hname.1) (.cons hx .nil))).mono fun s hs => ?_
  obtain ⟨rfl, hlevels⟩ := hmk e
  refine isForm_command (mk ⟨.nowhere, n⟩ e) hs ?_ (by omega)
  rw [hc, elaborateName_of_isName hname, he]
  rfl

theorem yields_checkSame : Yields (formOf .checkSame) (IsForm .checkSame) := by
  show Yields ((expr 2).times 3 >>= parenthesized Command.checkSame.keyword.toList) _
  refine ((yields_expr 2).times 3).bind fun parts hparts => ?_
  obtain ⟨xs, es, hxs, hes, hlen, hdepth⟩ := exists_forall₂_means hparts.2
  obtain ⟨type, left, right, rfl⟩ := List.length_eq_three.mp (hlen.trans hparts.1)
  obtain _ | ⟨htype, _ | ⟨hleft, _ | ⟨hright, ⟨⟩⟩⟩⟩ := hes
  refine (yields_parenthesized (spells_word (isWord_command _)) hxs).mono fun s hs => ?_
  refine isForm_command (.checkSame type left right) hs ?_ ?_
  · rw [elaborateCommand, htype, hleft, hright]
    rfl
  · have htype := hdepth type (by simp)
    have hleft := hdepth left (by simp)
    have hright := hdepth right (by simp)
    rw [Statement.depth]
    omega

/-- The name in the outline, if there is one, is a name. -/
def Outline.Named : Outline → Prop
  | .claim n => IsName n
  | .define n => IsName n
  | .checkSame => True
  | .expr => True

theorem yields_outline : Yields outline Outline.Named := by
  refine (yields_below (by omega)).bind fun k _ => yields_ite ?_ (yields_ite ?_ (yields_ite ?_ ?_))
  · exact yields_name.bind fun n hn => yields_pure hn
  · exact yields_name.bind fun n hn => yields_pure hn
  · exact yields_pure trivial
  · exact yields_pure trivial

theorem yields_formOf {o : Outline} (h : o.Named) : Yields (formOf o) (IsForm o) := by
  cases o with
  | claim n => exact yields_naming (c := .claim) rfl h (fun _ _ => rfl) fun e => ⟨rfl, rfl⟩
  | define n => exact yields_naming (c := .define) rfl h (fun _ _ => rfl) fun e => ⟨rfl, rfl⟩
  | checkSame => exact yields_checkSame
  | expr => exact (yields_expr 3).mono fun s hs => isForm_expression (hs.mono (by omega))

theorem isForm_topLevel (tape : Tape) : IsForm (outline tape).1 (topLevel tape).1 := by
  rw [topLevel_eq]
  exact yields_formOf (yields_outline tape) (outline tape).2

/-! ## Programs -/

/-- The outlines of a number of lines, each read off the tape where its line begins. -/
def outlines : Nat → Tape → List Outline
  | 0, _ => []
  | count + 1, tape => (outline tape).1 :: outlines count (line tape).2

/-- How many forms a program has, by its first draw. -/
def formCount (tape : Tape) : Nat := (between 0 6 tape).1

/-- The outlines of the forms of a program. -/
def sourceOutlines (tape : Tape) : List Outline := outlines (formCount tape) (between 0 6 tape).2

theorem length_outlines (count : Nat) (tape : Tape) : (outlines count tape).length = count := by
  induction count generalizing tape with
  | zero => rfl
  | succ count ih => exact congrArg (· + 1) (ih _)

/-- The lines of a program are its forms, with a line ending after each. -/
theorem exists_forms_lines (count : Nat) (tape : Tape) :
    ∃ xs ts, SExpr.AllWritten IsGap xs (line.times count tape).1.flatten ∧ (∀ x ∈ xs, x.Lexical) ∧
      elaborateProgram (fun _ => .nowhere) xs = some ts ∧
        ts.map TopLevel.outline = outlines count tape ∧ ∀ t ∈ ts, t.depth ≤ 4 := by
  induction count generalizing tape with
  | zero => exact ⟨[], [], rfl, by simp, rfl, rfl, by simp⟩
  | succ count ih =>
      obtain ⟨x, t, hx, ht, houtline, hdepth⟩ := isForm_topLevel tape
      obtain ⟨xs, ts, hxs, hlexical, hts, houtlines, hdepths⟩ := ih (line tape).2
      have hending : (oneOf lineEndings [] (topLevel tape).2).1 ∈ lineEndings :=
        yields_oneOf (by decide) [] _
      refine ⟨x :: xs, t :: ts, ?_, List.forall_mem_cons.mpr ⟨hx.lexical, hlexical⟩, ?_, ?_,
        List.forall_mem_cons.mpr ⟨hdepth, hdepths⟩⟩
      · exact ⟨_, _, _, hx.written, Or.inl (List.mem_append_right _ hending), hxs,
          List.append_assoc _ _ _⟩
      · rw [elaborateProgram, ht, hts]
        rfl
      · rw [List.map_cons, houtline, houtlines]
        rfl

theorem parseSource_source (src : String) (tape : Tape) :
    ∃ forms, (∀ ceiling ≥ 8, parseSource src (source tape).1 ceiling = .ok forms) ∧
      forms.map TopLevel.outline = sourceOutlines tape := by
  obtain ⟨xs, ts, hxs, hlexical, hts, houtlines, hdepths⟩ :=
    exists_forms_lines (formCount tape) (between 0 6 tape).2
  have hnewline : IsGap ['\n'] := List.mem_append_right _ (by decide)
  obtain ⟨forms, hread, hbare⟩ := parseSource_of_written src fits_isGap (skippable_smallGap _)
    hnewline hxs hlexical hts (by decide : 4 ≤ 8 + 1) fun t ht => Nat.add_le_add_right (hdepths t ht) 4
  refine ⟨forms, fun ceiling hle => parseSource_eq_ok_of_le hread hle, ?_⟩
  rw [sourceOutlines, ← houtlines, ← hbare, List.map_map]
  exact List.map_congr_left fun t _ => (TopLevel.outline_bare t).symm

/-! ## Runs of the generator -/

theorem length_times (d : Draw α) (count : Nat) (tape : Tape) :
    (d.times count tape).1.length = count := by
  induction count generalizing tape with
  | zero => rfl
  | succ count ih => exact congrArg (· + 1) (ih _)

/-- Each value is drawn from where those before it have left the tape. -/
theorem getElem?_times (d : Draw α) {i count : Nat} (h : i < count) (tape : Tape) :
    (d.times count tape).1[i]? = some (d (d.times i tape).2).1 := by
  induction count generalizing i tape with
  | zero => omega
  | succ count ih =>
      cases i with
      | zero => rfl
      | succ i => exact ih (by omega) (d tape).2

/-- Every run of the generator ends, and what it makes is read.  The only loop that nothing counts is
the one over words for a name, and it ends.  Each program is read as the forms that were drawn for it,
under every ceiling but the lowest ones, and an expression is read if there is room for it under the
ceiling, or if it is not nested too deeply. -/
theorem generated_accepted (src : String) :
    (∀ tape, NameLoop tape (name tape).1 (name tape).2) ∧
    (∀ count tape, (sources count tape).1.length = count ∧
      ∀ i < count, ∃ text forms, (sources count tape).1[i]? = some text ∧
        text = (source (sources i tape).2).1 ∧
          (∀ ceiling ≥ 8, parseSource src text ceiling = .ok forms) ∧
          forms.length = formCount (sources i tape).2 ∧
            forms.map TopLevel.outline = sourceOutlines (sources i tape).2) ∧
    ∀ depth tape allowTrailing ceiling,
      (depth + 4 ≤ ceiling ∨
        BelowCeiling (parseExpression src (expr depth tape).1 allowTrailing ceiling)) →
          ∃ e, parseExpression src (expr depth tape).1 allowTrailing ceiling = .ok e := by
  refine ⟨nameLoop_name, fun count tape => ⟨length_times _ _ _, fun i hi => ?_⟩,
    fun depth tape allowTrailing ceiling hbelow => ?_⟩
  · obtain ⟨forms, hread, houtlines⟩ := parseSource_source src (sources i tape).2
    refine ⟨_, forms, getElem?_times source hi tape, rfl, hread, ?_, houtlines⟩
    have hlen := congrArg List.length houtlines
    rwa [List.length_map, sourceOutlines, length_outlines] at hlen
  · obtain ⟨x, e, hx, he, hdepth⟩ := yields_expr depth tape
    exact parseExpression_of_written fits_isGap (fun _ => skippable_smallGap _) hx.written hx.lexical he
      (hbelow.imp_left fun hroom => by omega)

/-- A tape from which a program with one claim is drawn. -/
def claimTape : Tape := ⟨[1, 0, 1, 0, 0, 0, 2, 0, 9, 8, 3], 0⟩

/-- A claim with comments of both kinds, and an expression from a tape that has run out. -/
theorem accepted_claimTape :
    (source claimTape).1 = "#lang pie\n(claim #;skip b #;(ignored (x 1)) c)\n;; comment\n".toList ∧
    (∃ forms, parseSource "gen.pie" (source claimTape).1 = .ok forms ∧
      forms.map TopLevel.outline = [.claim ['b']]) ∧
    ∃ e, parseExpression "gen.pie" (expr 7 ⟨[], 0⟩).1 false = .ok e := by
  obtain ⟨-, hsources, hexpr⟩ := generated_accepted "gen.pie"
  obtain ⟨text, forms, -, rfl, hread, -, houtlines⟩ := (hsources 1 claimTape).2 0 Nat.one_pos
  have hfirst : (sources 0 claimTape).2 = claimTape := rfl
  have hdrawn : sourceOutlines claimTape = [.claim ['b']] := by decide +kernel
  rw [hfirst] at hread houtlines
  exact ⟨by decide +kernel, ⟨forms, hread nestingCeiling (by decide), houtlines.trans hdrawn⟩,
    hexpr 7 ⟨[], 0⟩ false nestingCeiling (Or.inl (by decide))⟩

end Sample

end PieSyntax
