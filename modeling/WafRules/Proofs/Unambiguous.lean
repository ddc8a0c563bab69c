import WafRules.Proofs.Rendering

/-!
# Canonical texts are unambiguous

Two readable rules with the same canonical text are the same rule. This is plain where the
text can be read. It also holds where a quote does not close: then the text is no rule, but
it still does not stand for two of them.

The actions are compared one by one, so all that matters is where an argument ends. Only an
argument whose closing quote is escaped could end in two places. A list that goes on behind
it as if the quote had closed is then read with inside and outside exchanged, and no quote
opens in such a reading but in front of a comma or of the end of the list. A list that is
read as it is meant comes back outside, or has an argument in which a quote opens in front
of something else. So a text cannot be both.
-/

namespace WafRules

namespace Quoting

/-- What stands behind a complete action. -/
def separators : List Char := [',', '"']

/-- Whenever a quote opens, a separator stands behind it. -/
def OpensOnSeparators : Quoting → Text → Prop
  | _, [] => True
  | q, c :: s =>
    (q = outside true → c = '\'' → Text.BeginsIn separators s) ∧ OpensOnSeparators (q.step c) s

variable {q : Quoting} {s t : Text}

theorem OpensOnSeparators.of_append (h : q.OpensOnSeparators (s ++ t)) :
    (q.after s).OpensOnSeparators t := by
  induction s generalizing q with
  | nil => exact h
  | cons c s ih => exact ih h.2

theorem opensOnSeparators_broken (s : Text) : broken.OpensOnSeparators s := by
  induction s with
  | nil => trivial
  | cons c s ih =>
    refine ⟨fun h => ?_, ih⟩
    cases h

/-- Without quotes nothing opens. -/
theorem opensOnSeparators_append_of_no_quote (hs : ∀ c ∈ s, c ≠ '\'')
    (h : (q.after s).OpensOnSeparators t) : q.OpensOnSeparators (s ++ t) := by
  induction s generalizing q with
  | nil => exact h
  | cons c s ih =>
    refine ⟨fun _ hc => absurd hc (hs c List.mem_cons_self), ?_⟩
    exact ih (fun d hd => hs d (List.mem_cons_of_mem c hd)) h

/-- In escaped text every quote stands behind a backslash, so none opens. -/
theorem opensOnSeparators_append_of_escaped (hs : Escaped '\'' s) (hq : q.IsOutside)
    (h : ∀ p : Quoting, p.IsOutside → p.OpensOnSeparators t) : q.OpensOnSeparators (s ++ t) := by
  induction hs generalizing q with
  | nil => exact h q hq
  | plain hquote _ _ ih =>
    exact ⟨fun _ hc => absurd hc hquote, ih ⟨_, isOutside_step hq hquote⟩⟩
  | @pair c s _ _ ih =>
    have backslash : q.step '\\' = outside false := isOutside_step hq (by decide)
    refine ⟨fun _ hc => absurd hc (by decide), ?_⟩
    rw [backslash]
    refine ⟨fun hc => (by cases hc), ?_⟩
    by_cases hc : c = '\''
    · subst hc
      exact opensOnSeparators_broken _
    · exact ih ⟨_, isOutside_step ⟨false, rfl⟩ hc⟩

end Quoting

open Quoting

namespace Actions

theorem rest_begins (as : List Action) : Text.BeginsIn separators (rest as) := by
  cases as with
  | nil => exact Text.beginsIn_cons.mpr (by decide)
  | cons a as =>
    rw [rest_cons]
    exact Text.beginsIn_cons.mpr (by decide)

theorem isOutside_after_rest {as : List Action} (h : WellFormed as) {q : Quoting}
    (hq : q.IsOutside) : (q.after (rest as)).IsOutside := by
  induction as generalizing q with
  | nil => exact ⟨_, isOutside_step hq (by decide)⟩
  | cons a as ih =>
    obtain ⟨first, others⟩ := wellFormed_cons.mp h
    have comma : (q.step ',').IsOutside := ⟨_, isOutside_step hq (by decide)⟩
    rw [rest_cons, after_cons, after_append]
    exact ih others (Action.isOutside_after_render first comma)

end Actions

namespace Action

/-- Read with inside and outside exchanged, an action opens no quote but the one that is
meant to close its argument: the opening quote closes, and the argument is read outside. -/
theorem opensOnSeparators_render {a : Action} (readable : a.Readable) {t : Text}
    (begins : Text.BeginsIn separators t)
    (h : ∀ q : Quoting, q.IsExchanged → q.OpensOnSeparators t) :
    inside.OpensOnSeparators (a.render ++ t) := by
  have name : ∀ c ∈ Vocabulary.text a.name, c ≠ '\'' := fun c hc =>
    ne_of_class ((Form.actionName_language a.name).2 c hc) (by decide)
  rw [render, List.append_assoc]
  refine opensOnSeparators_append_of_no_quote name ?_
  rw [inside_after_name]
  cases ha : a.argument with
  | none => exact h _ .inside
  | some s =>
    refine ⟨fun hc => (by cases hc), ?_⟩
    change inside.OpensOnSeparators (quote s ++ t)
    by_cases plain : s ≠ [] ∧ ∀ c ∈ s, isPlainChar c = true
    · rw [quote_of_plain plain]
      have noQuote (c : Char) (hc : c ∈ s) :=
        ne_quote_and_line_feed (isBareChar_of_isPlainChar (plain.2 c hc))
      refine opensOnSeparators_append_of_no_quote (fun c hc => (noQuote c hc).1) (h _ ?_)
      rcases inside_after_of_no_quote s noQuote with ⟨state, -⟩ | ⟨state, -⟩
      · rw [state]; exact .inside
      · rw [state]; exact .escaped
    · rw [quote_of_not_plain plain, List.cons_append, List.append_assoc]
      refine ⟨fun hc => (by cases hc), ?_⟩
      have closing : ∀ p : Quoting, p.IsOutside → p.OpensOnSeparators ('\'' :: t) := by
        rintro p ⟨afterColon, rfl⟩
        refine ⟨fun _ _ => begins, h _ ?_⟩
        cases afterColon with
        | true => exact .inside
        | false => exact .broken
      have closed : (inside.step '\'').IsOutside := ⟨false, rfl⟩
      rcases readable s ha with ⟨-, bare⟩ | escaped
      · have noQuote : ∀ c ∈ s, c ≠ '\'' := fun c hc => ne_of_class (bare c hc) (by decide)
        exact opensOnSeparators_append_of_no_quote noQuote
          (closing _ (isOutside_after closed noQuote))
      · exact opensOnSeparators_append_of_escaped escaped closed closing

/-- Read as it is meant, an action that is not well formed opens a quote in front of its
argument, which is no separator. -/
theorem wellFormed_of_opensOnSeparators {a : Action} (readable : a.Readable) {q : Quoting}
    (hq : q.IsOutside) {t : Text} (h : q.OpensOnSeparators (a.render ++ t)) : a.WellFormed := by
  by_cases wellFormed : a.WellFormed
  · exact wellFormed
  · obtain ⟨s, ha, hne, bare, -, quoted⟩ := exists_dangling_argument readable wellFormed
    have name := isOutside_after_letters hq (Form.actionName_language a.name).2
    have colon := isOutside_step name (c := ':') (by decide)
    have text : a.render ++ t =
        Vocabulary.text a.name ++ ':' :: '\'' :: (s ++ '\'' :: t) := by
      simp [render, ha, quoted]
    rw [text] at h
    have opening := h.of_append.2
    rw [colon] at opening
    obtain ⟨c, s, rfl⟩ := List.exists_cons_of_ne_nil hne
    have separator := Text.beginsIn_cons.mp (opening.1 rfl rfl)
    have ordinary := bare c List.mem_cons_self
    simp only [separators, List.mem_cons, List.not_mem_nil, or_false] at separator
    rcases separator with rfl | rfl
    · exact absurd ordinary (by decide)
    · exact absurd ordinary (by decide)

end Action

namespace Actions

theorem opensOnSeparators_rest {as : List Action} (readable : Readable as) {q : Quoting}
    (hq : q.IsExchanged) : q.OpensOnSeparators (rest as) := by
  induction as generalizing q with
  | nil => exact ⟨fun _ hc => absurd hc (by decide), trivial⟩
  | cons a as ih =>
    obtain ⟨first, others⟩ := readable_cons.mp readable
    rw [rest_cons]
    refine ⟨fun _ hc => absurd hc (by decide), ?_⟩
    rcases hq.step (c := ',') (by decide) (by decide) with comma | comma
    · rw [comma]
      exact Action.opensOnSeparators_render first (rest_begins as) fun _ hp => ih others hp
    · rw [comma]
      exact opensOnSeparators_broken _

theorem wellFormed_of_opensOnSeparators {as : List Action} (readable : Readable as)
    {q : Quoting} (hq : q.IsOutside) (h : q.OpensOnSeparators (rest as)) : WellFormed as := by
  induction as generalizing q with
  | nil =>
    intro a ha
    cases ha
  | cons a as ih =>
    obtain ⟨first, others⟩ := readable_cons.mp readable
    have comma : (q.step ',').IsOutside := ⟨_, isOutside_step hq (by decide)⟩
    rw [rest_cons] at h
    have wellFormed := Action.wellFormed_of_opensOnSeparators first comma h.2
    have outside := Action.isOutside_after_render wellFormed comma
    exact wellFormed_cons.mpr ⟨wellFormed, ih others outside h.2.of_append⟩

/-- What is written behind an exchange is not, from some place on, the rest of a list of
actions that is read as it is meant. -/
theorem rest_ne_append_rest {as bs : List Action} (has : Readable as) (hbs : Readable bs)
    {u : Text} (hu : inside.after u = outside false) : rest bs ≠ u ++ rest as := by
  intro h
  have opens := opensOnSeparators_rest hbs .inside
  have exchanged := isExchanged_after_rest hbs .inside
  rw [h] at opens exchanged
  rw [after_append, hu] at exchanged
  have wellFormed := wellFormed_of_opensOnSeparators has ⟨false, hu⟩ opens.of_append
  exact exchanged.not_isOutside (isOutside_after_rest wellFormed ⟨false, rfl⟩)

end Actions

namespace Action

/-- An argument whose closing quote is escaped does not end where another one goes on. -/
theorem escaped_append_ne {s t : Text} (hs : Escaped '\'' s) (ht : ¬ Escaped '\'' t)
    (bare : ∀ c ∈ t, isBareChar c = true) {as bs : List Action} (has : Actions.Readable as)
    (hbs : Actions.Readable bs) : s ++ '\'' :: Actions.rest as ≠ t ++ '\'' :: Actions.rest bs := by
  intro h
  have noQuote (c : Char) (hc : c ∈ t) := ne_quote_and_line_feed (bare c hc)
  have dangling := ((inside_after_of_no_quote t noQuote).resolve_left fun closed => ht closed.2).1
  rcases List.append_eq_append_iff.mp h with ⟨u, rfl, hu⟩ | ⟨u, rfl, hu⟩
  · cases u with
    | nil => exact ht (by rwa [List.append_nil])
    | cons c u =>
      rw [List.cons_append, List.cons.injEq] at hu
      exact (noQuote c (by simp)).1 hu.1.symm
  · cases u with
    | nil => exact ht (by rwa [List.append_nil] at hs)
    | cons c u =>
      rw [List.cons_append, List.cons.injEq] at hu
      obtain ⟨rfl, hu⟩ := hu
      have state := inside_after_escaped hs
      rw [after_append, dangling, after_cons] at state
      have closed : inside.after (u ++ ['\'']) = outside false := by
        rw [after_append, show inside.after u = inside from state]
        rfl
      exact Actions.rest_ne_append_rest has hbs closed (by simpa using hu)

/-- An argument ends in one place only. -/
theorem quote_append_inj {s t : Text}
    (hs : (s ≠ [] ∧ ∀ c ∈ s, isBareChar c = true) ∨ Escaped '\'' s)
    (ht : (t ≠ [] ∧ ∀ c ∈ t, isBareChar c = true) ∨ Escaped '\'' t) {as bs : List Action}
    (has : Actions.Readable as) (hbs : Actions.Readable bs)
    (h : quote s ++ Actions.rest as = quote t ++ Actions.rest bs) :
    s = t ∧ Actions.rest as = Actions.rest bs := by
  have ends (cs : List Action) : ∀ c ∈ (Actions.rest cs).head?, isPlainChar c = false :=
    (Actions.rest_begins cs).head (by decide)
  have opening {u v w : Text} (hu : u ≠ [] ∧ ∀ c ∈ u, isPlainChar c = true) :
      u ++ v ≠ '\'' :: w := by
    intro same
    have plain := head_run hu.1 hu.2 v '\'' (by rw [same]; rfl)
    exact absurd plain (by decide)
  by_cases plainLeft : s ≠ [] ∧ ∀ c ∈ s, isPlainChar c = true
  · rw [quote_of_plain plainLeft] at h
    by_cases plainRight : t ≠ [] ∧ ∀ c ∈ t, isPlainChar c = true
    · rw [quote_of_plain plainRight] at h
      exact run_append_inj plainLeft.2 plainRight.2 (ends as) (ends bs) h
    · rw [quote_of_not_plain plainRight] at h
      exact absurd h (opening plainLeft)
  · rw [quote_of_not_plain plainLeft] at h
    by_cases plainRight : t ≠ [] ∧ ∀ c ∈ t, isPlainChar c = true
    · rw [quote_of_plain plainRight] at h
      exact absurd h.symm (opening plainRight)
    · simp only [quote_of_not_plain plainRight, List.cons_append, List.append_assoc,
        List.cons.injEq, true_and, List.nil_append] at h
      by_cases closedLeft : Escaped '\'' s
      · by_cases closedRight : Escaped '\'' t
        · exact escaped_append_inj (by decide) closedLeft closedRight h
        · have bare := (ht.resolve_right closedRight).2
          exact absurd h (escaped_append_ne closedLeft closedRight bare has hbs)
      · have bare := (hs.resolve_right closedLeft).2
        by_cases closedRight : Escaped '\'' t
        · exact absurd h.symm (escaped_append_ne closedRight closedLeft bare hbs has)
        · have bareRight := (ht.resolve_right closedRight).2
          have noQuote {u : Text} (hu : ∀ c ∈ u, isBareChar c = true) :
              ∀ c ∈ u, (c != '\'') = true := fun c hc => by
            simpa using (ne_quote_and_line_feed (hu c hc)).1
          obtain ⟨same, behind⟩ := run_append_inj (noQuote bare) (noQuote bareRight)
            (by simp) (by simp) h
          exact ⟨same, (List.cons.inj behind).2⟩

theorem render_append_inj {a b : Action} (ha : a.Readable) (hb : b.Readable)
    {as bs : List Action} (has : Actions.Readable as) (hbs : Actions.Readable bs)
    (h : a.render ++ Actions.rest as = b.render ++ Actions.rest bs) :
    a = b ∧ Actions.rest as = Actions.rest bs := by
  obtain ⟨name, argument⟩ := a
  obtain ⟨name', argument'⟩ := b
  have ends (argument : Option Text) (cs : List Action) :
      ∀ c ∈ (argument.elim [] (fun s => ':' :: quote s) ++ Actions.rest cs).head?,
        c.isAlpha = false := by
    cases argument with
    | none => exact (Actions.rest_begins cs).head (by decide)
    | some s =>
      intro c hc
      cases hc
      rfl
  have colon (s : Text) (cs : List Action) : Actions.rest cs ≠ ':' :: s := by
    intro same
    have separator := Actions.rest_begins cs
    rw [same] at separator
    exact absurd (Text.beginsIn_cons.mp separator) (by decide)
  rw [render, render, List.append_assoc, List.append_assoc] at h
  obtain ⟨sameName, behind⟩ := run_append_inj (Form.actionName_language name).2
    (Form.actionName_language name').2 (ends argument as) (ends argument' bs) h
  obtain rfl := Vocabulary.text_injective sameName
  cases argument with
  | none =>
    cases argument' with
    | none => exact ⟨rfl, behind⟩
    | some t => exact absurd behind (colon _ as)
  | some s =>
    cases argument' with
    | none => exact absurd behind.symm (colon _ bs)
    | some t =>
      obtain ⟨rfl, rest⟩ :=
        quote_append_inj (ha s rfl) (hb t rfl) has hbs (List.cons.inj behind).2
      exact ⟨rfl, rest⟩

theorem render_head (a : Action) (s : Text) : ∀ c ∈ (a.render ++ s).head?, c.isAlpha = true := by
  rw [render, List.append_assoc]
  exact head_run (Form.actionName_language a.name).1 (Form.actionName_language a.name).2 _

end Action

namespace Actions

theorem rest_inj {as bs : List Action} (has : Readable as) (hbs : Readable bs)
    (h : rest as = rest bs) : as = bs := by
  induction as generalizing bs with
  | nil =>
    cases bs with
    | nil => rfl
    | cons b bs =>
      rw [rest_cons] at h
      exact absurd (List.cons.inj h).1 (by decide)
  | cons a as ih =>
    cases bs with
    | nil =>
      rw [rest_cons] at h
      exact absurd (List.cons.inj h).1 (by decide)
    | cons b bs =>
      obtain ⟨ha, has'⟩ := readable_cons.mp has
      obtain ⟨hb, hbs'⟩ := readable_cons.mp hbs
      rw [rest_cons, rest_cons] at h
      obtain ⟨same, behind⟩ := Action.render_append_inj ha hb has' hbs' (List.cons.inj h).2
      rw [same, ih has' hbs' behind]

theorem render_inj {as bs : List Action} (has : Readable as) (hbs : Readable bs)
    (h : render as = render bs) : as = bs := by
  have letter (c : Action) (cs : List Action) : render [] ≠ render (c :: cs) := by
    intro same
    rw [render_cons] at same
    have head := c.render_head (rest cs) '"' (by rw [← (List.cons.inj same).2]; rfl)
    exact absurd head (by decide)
  refine rest_inj has hbs ?_
  cases as with
  | nil =>
    cases bs with
    | nil => rfl
    | cons b bs => exact absurd h (letter b bs)
  | cons a as =>
    cases bs with
    | nil => exact absurd h.symm (letter a as)
    | cons b bs =>
      rw [render_cons, render_cons] at h
      rw [rest_cons, rest_cons, (List.cons.inj h).2]

end Actions

/-- Readable rules with the same canonical text are the same. -/
theorem Rule.render_inj {r q : Rule} (hr : r.Readable) (hq : q.Readable)
    (h : r.render = q.render) : r = q := by
  obtain ⟨inputs, hinputs⟩ := Form.exists_inputs_of_wellFormed hr.inputs
  obtain ⟨operator, operatorText, hoperator⟩ := Form.exists_operator_of_wellFormed hr.operator
  obtain ⟨inputs', hinputs'⟩ := Form.exists_inputs_of_wellFormed hq.inputs
  obtain ⟨operator', operatorText', hoperator'⟩ := Form.exists_operator_of_wellFormed hq.operator
  have quote (as : List Action) : ∀ c ∈ (Actions.render as).head?, isBlank c = false := by
    intro c hc
    cases hc
    rfl
  rw [Form.Rule.render_eq_front (inputs.text_eq_render hinputs) operatorText,
    Form.Rule.render_eq_front (inputs'.text_eq_render hinputs') operatorText'] at h
  obtain ⟨⟨-, -, sameInputs, -, sameOperator, -⟩, sameActions⟩ :=
    Form.front_inj (quote r.actions) (quote q.actions) h
  have readInputs := Form.parse_inputs_eq_ok_iff.mpr ⟨inputs, rfl, hinputs⟩
  have readOperator := Form.parse_operator_eq_ok_iff.mpr ⟨operator, rfl, hoperator⟩
  rw [sameInputs, Form.parse_inputs_eq_ok_iff.mpr ⟨inputs', rfl, hinputs'⟩] at readInputs
  rw [sameOperator, Form.parse_operator_eq_ok_iff.mpr ⟨operator', rfl, hoperator'⟩] at readOperator
  have actions := Actions.render_inj hr.actions hq.actions sameActions
  obtain ⟨_, _, _⟩ := r
  obtain ⟨_, _, _⟩ := q
  cases readInputs
  cases readOperator
  cases actions
  rfl

/-- Two rules that were read have different canonical texts if they differ. If the canonical
text of a rule that was read is read at all, it is read as this rule. -/
theorem Rule.render_unambiguous {s t : Text} {r q : Rule} (hr : Model.parse s = .ok r)
    (hq : Model.parse t = .ok q) :
    (Model.render r = Model.render q → r = q) ∧
      ∀ p : Rule, Model.parse (Model.render r) = .ok p → p = r := by
  have readable := readable_of_parse hr
  constructor
  · exact render_inj readable (readable_of_parse hq)
  · intro p hp
    have back := parse_render (wellFormed_of_parse_render readable hp)
    exact Except.ok.inj (hp.symm.trans back)

/-- The rule with these actions, all of which are messages. -/
def Rule.withMessages (messages : List Text) : Rule :=
  ⟨[⟨.args, .whole⟩], ⟨.rx, ['a'], false⟩, messages.map fun s => ⟨.msg, some s⟩⟩

/-- The first message of the one rule dangles. Up to the last quotes the rule is written like
the other one, in which this message goes on where the second one of the first rule begins. -/
theorem Rule.render_unambiguous_of_dangling :
    Model.parse "SecRule ARGS \"@rx a\" \"msg:\x1c\\,msg:',msg:'\"".toList =
        .ok (withMessages ["\x1c\\".toList, ",msg:".toList]) ∧
      Model.parse "SecRule ARGS \"@rx a\" \"msg:'\x1c\\',msg:',msg:','\"".toList =
        .ok (withMessages ["\x1c\\',msg:".toList, ",".toList]) ∧
      Model.render (withMessages ["\x1c\\".toList, ",msg:".toList]) ≠
        Model.render (withMessages ["\x1c\\',msg:".toList, ",".toList]) ∧
      ∀ p : Rule, Model.parse (Model.render (withMessages ["\x1c\\',msg:".toList, ",".toList])) =
        .ok p → p = withMessages ["\x1c\\',msg:".toList, ",".toList] := by
  have dangling : Model.parse "SecRule ARGS \"@rx a\" \"msg:\x1c\\,msg:',msg:'\"".toList =
      .ok (withMessages ["\x1c\\".toList, ",msg:".toList]) := eq_ok_of_toOption (by decide +kernel)
  have closed : Model.parse "SecRule ARGS \"@rx a\" \"msg:'\x1c\\',msg:',msg:','\"".toList =
      .ok (withMessages ["\x1c\\',msg:".toList, ",".toList]) :=
    eq_ok_of_toOption (by decide +kernel)
  refine ⟨dangling, closed, fun same => ?_, (render_unambiguous closed dangling).2⟩
  exact absurd ((render_unambiguous dangling closed).1 same) (by decide +kernel)

end WafRules
