import WafRules.Proofs.WellFormed

/-!
# Canonical forms

A well-formed value has a form whose text is its canonical text, so the canonical text is
read as the value again. The words of the vocabularies are words of the token classes that
the grammar has for them.
-/

namespace WafRules

namespace Form

theorem variable_language (v : Variable) : Token.inputName.Language (Vocabulary.text v) := by
  have scanned : ∀ v ∈ Variable.all,
      Token.inputName.scan (Vocabulary.text v) = some (Vocabulary.text v, []) := by decide +kernel
  exact Token.language_of_scan (scanned v (Vocabulary.mem_all v))

theorem operatorName_language (o : OperatorName) :
    Token.operatorName.Language ('@' :: Vocabulary.text o) := by
  have scanned : ∀ o ∈ OperatorName.all, Token.operatorName.scan ('@' :: Vocabulary.text o) =
      some ('@' :: Vocabulary.text o, []) := by decide +kernel
  exact Token.language_of_scan (scanned o (Vocabulary.mem_all o))

theorem actionName_language (a : ActionName) : Token.actionName.Language (Vocabulary.text a) := by
  have scanned : ∀ a ∈ ActionName.all,
      Token.actionName.scan (Vocabulary.text a) = some (Vocabulary.text a, []) := by decide +kernel
  exact Token.language_of_scan (scanned a (Vocabulary.mem_all a))

/-- A separator in front of every text but the first. -/
theorem intercalate_cons (c : Char) (s : Text) (ts : List Text) :
    [c].intercalate (s :: ts) = s ++ ts.flatMap fun t => c :: t := by
  induction ts generalizing s with
  | nil => simp
  | cons t ts ih => simp [List.intercalate_cons_cons, ih]

theorem ofWritten_of_key (k : Key) (s : Text) (bare : Option Selector) (make : Key → Selector) :
    Selector.ofWritten.withKey (some k.text) s bare make = .ok (make k) := by
  simp [Selector.ofWritten.withKey, Key.ofText?, k.nonempty]

/-- How a selector is written. The text of the whole input is only reported. -/
theorem exists_ofWritten {selector : Selector}
    (h : ∀ key ∈ selector.keyText?, ∀ c ∈ key, c ≠ '|' ∧ isWhiteSpace c = false) :
    ∃ (mark : Option Mark) (key : Option (Token.Word .key)), ∀ s,
      Selector.ofWritten (mark.map Mark.text) (key.map Token.Word.text) s = .ok selector := by
  have word (k : Key) (hk : selector.keyText? = some k.text) : Token.key.Language k.text := by
    refine ⟨k.nonempty, fun c hc => ?_⟩
    obtain ⟨bar, space⟩ := h _ hk c hc
    simp [isKeyChar, bar, space]
  cases selector with
  | whole => exact ⟨none, none, fun _ => rfl⟩
  | countAll => exact ⟨some .ampersand, none, fun _ => rfl⟩
  | only k =>
    exact ⟨none, some ⟨k.text, word k rfl⟩, fun s => ofWritten_of_key k s (some .whole) .only⟩
  | without k =>
    exact ⟨some .exclamation, some ⟨k.text, word k rfl⟩,
      fun s => ofWritten_of_key k s none .without⟩
  | count k =>
    exact ⟨some .ampersand, some ⟨k.text, word k rfl⟩,
      fun s => ofWritten_of_key k s (some .countAll) .count⟩

theorem exists_input_of_wellFormed {i : WafRules.Input} (h : i.WellFormed) :
    ∃ x : Form.Input, x.value = .ok i := by
  obtain ⟨mark, key, written⟩ := exists_ofWritten h
  refine ⟨⟨mark, ⟨_, variable_language i.name⟩, key⟩, ?_⟩
  simp [Input.value, written, Except.map]

/-- Inputs have no other written form than their canonical text. -/
theorem Inputs.text_eq_render {x : Form.Inputs} {is : List WafRules.Input}
    (h : x.value = .ok is) : x.text = WafRules.Inputs.render is := by
  have rows (xs : List Form.Input) (js : List WafRules.Input)
      (hrow : xs.map Input.value = js.map .ok) :
      moreText xs = (js.map WafRules.Input.render).flatMap fun t => '|' :: t := by
    induction xs generalizing js with
    | nil => cases js <;> simp at hrow ⊢; rfl
    | cons x xs ih =>
      cases js with
      | nil => simp at hrow
      | cons j js =>
        simp only [List.map_cons, List.cons.injEq] at hrow
        have tail := ih js hrow.2
        simp only [moreText, List.flatMap_cons, List.map_cons] at tail ⊢
        rw [tail, x.text_eq_render hrow.1]
  have items := mapM_eq_ok_iff.mp h
  cases is with
  | nil => simp [all] at items
  | cons i is =>
    simp only [all, List.map_cons, List.cons.injEq] at items
    rw [text, x.first.text_eq_render items.1, rows x.more is items.2, WafRules.Inputs.render,
      List.map_cons, intercalate_cons]

theorem exists_inputs_of_wellFormed {is : List WafRules.Input}
    (h : WafRules.Inputs.WellFormed is) : ∃ x : Form.Inputs, x.value = .ok is := by
  obtain ⟨nonempty, each⟩ := h
  obtain ⟨xs, hxs⟩ := exists_map_eq_map fun i hi => exists_input_of_wellFormed (each i hi)
  cases xs with
  | nil => exact absurd (List.map_eq_nil_iff.mp hxs.symm) nonempty
  | cons x xs => exact ⟨⟨x, xs⟩, mapM_eq_ok_iff.mpr hxs⟩

theorem exists_operator_of_wellFormed {o : WafRules.Operator} (h : o.WellFormed) :
    ∃ x : Form.Operator, x.text = o.render ∧ x.value = .ok o := by
  let name : Token.Word .operatorName := ⟨_, operatorName_language o.name⟩
  have known : Vocabulary.ofText? (name.text.drop 1) = some o.name := Vocabulary.ofText?_text o.name
  by_cases ha : o.argument = []
  · refine ⟨⟨o.negated, .named name none⟩, ?_, ?_⟩
    · simp [Operator.text, Operator.markText, Test.text, Test.argumentText,
        WafRules.Operator.render, ha, name]
    · simp [Operator.value, known, ← ha, -List.drop_one]
  · let argument : Argument := ⟨⟨o.argument, h.2⟩, h.1⟩
    refine ⟨⟨o.negated, .named name (some (.space, argument))⟩, ?_, ?_⟩
    · simp [Operator.text, Operator.markText, Test.text, Test.argumentText,
        WafRules.Operator.render, ha, name, Gap.space, argument]
    · simp [Operator.value, known, argument, -List.drop_one]

/-- How the argument of an action is written. -/
theorem exists_argument {s : Text}
    (h : (s ≠ [] ∧ ∀ c ∈ s, isPlainChar c = true) ∨ Escaped '\'' s) :
    ∃ word : ActionArgument, word.text = WafRules.Action.quote s ∧
      WafRules.Action.unquote word.text = s := by
  by_cases plain : (!s.isEmpty && s.all isPlainChar) = true
  · have bare : Token.bareArgument.Language s := by
      simp only [Bool.and_eq_true, Bool.not_eq_true', List.isEmpty_eq_false_iff,
        List.all_eq_true] at plain
      exact ⟨plain.1, fun c hc => isBareChar_of_isPlainChar (plain.2 c hc)⟩
    refine ⟨.bare ⟨s, bare⟩, ?_, unquote_bare ⟨s, bare⟩⟩
    rw [WafRules.Action.quote, if_pos plain]
    rfl
  · have escaped : Escaped '\'' s := by
      refine h.resolve_left ?_
      rintro ⟨hne, hs⟩
      exact plain (by simpa [hne] using hs)
    refine ⟨.quoted ⟨_, s, rfl, escaped⟩, ?_, unquote_quoted s⟩
    rw [WafRules.Action.quote, if_neg plain]
    rfl

theorem exists_action_of_wellFormed {a : WafRules.Action} (h : a.WellFormed) :
    ∃ x : Form.Action, x.text = a.render ∧ x.value = .ok a := by
  obtain ⟨name, argument⟩ := a
  cases argument with
  | none =>
    refine ⟨⟨⟨_, actionName_language name⟩, none⟩, rfl, ?_⟩
    simp [Action.value]
  | some s =>
    obtain ⟨word, hw, hs⟩ := exists_argument (h s rfl)
    refine ⟨⟨⟨_, actionName_language name⟩, some word⟩, ?_, ?_⟩
    · simp [Action.text, Action.argumentText, WafRules.Action.render, hw]
    · simp [Action.value, hs]

/-- The list of the actions, written without a blank. -/
def Actions.plain : List Form.Action → Form.Actions
  | [] => .empty .none
  | x :: xs => .listed .none x (xs.map fun y => ⟨.none, .none, y⟩) .none

theorem Actions.all_plain (xs : List Form.Action) : (plain xs).all = xs := by
  cases xs with
  | nil => rfl
  | cons x xs => simp [plain, all, Function.comp_def]

theorem Actions.text_plain (xs : List Form.Action) :
    (plain xs).text = '"' :: ([','].intercalate (xs.map Action.text) ++ ['"']) := by
  cases xs with
  | nil => rfl
  | cons x xs =>
    rw [List.map_cons, intercalate_cons]
    simp [plain, text, moreText, NextAction.text, Blanks.none, List.flatMap_map]

theorem exists_actions_of_wellFormed {as : List WafRules.Action}
    (h : WafRules.Actions.WellFormed as) :
    ∃ x : Form.Actions, x.text = WafRules.Actions.render as ∧ x.value = .ok as := by
  have each : ∀ a ∈ as, ∃ x : Form.Action,
      (x.text, x.value) = (a.render, (.ok a : Except Fault WafRules.Action)) := by
    intro a ha
    obtain ⟨x, htext, hx⟩ := exists_action_of_wellFormed (h a ha)
    exact ⟨x, by rw [htext, hx]⟩
  obtain ⟨xs, hxs⟩ := exists_map_eq_map each
  have texts : xs.map Action.text = as.map WafRules.Action.render := by
    simpa [Function.comp_def] using congrArg (List.map Prod.fst) hxs
  have values : xs.map Action.value = as.map .ok := by
    simpa [Function.comp_def] using congrArg (List.map Prod.snd) hxs
  refine ⟨.plain xs, ?_, mapM_eq_ok_iff.mpr ?_⟩
  · rw [Actions.text_plain, texts]
    rfl
  · rw [Actions.all_plain, values]

theorem exists_rule_of_wellFormed {r : WafRules.Rule} (h : r.WellFormed) :
    ∃ x : Form.Rule, x.text = r.render ∧ x.value = .ok r := by
  obtain ⟨inputs, hinputs⟩ := exists_inputs_of_wellFormed h.inputs
  obtain ⟨operator, operatorText, hoperator⟩ := exists_operator_of_wellFormed h.operator
  obtain ⟨actions, actionsText, hactions⟩ := exists_actions_of_wellFormed h.actions
  refine ⟨⟨.none, .space, inputs, .space, operator, .space, actions, .none⟩, ?_, ?_⟩
  · simp [Rule.text, WafRules.Rule.render, Blanks.none, Gap.space, operatorText, actionsText,
      inputs.text_eq_render hinputs]
  · exact Rule.value_eq_ok_iff.mpr ⟨hinputs, hoperator, hactions⟩

end Form

end WafRules
