import WafRules.Proofs.FormSplitting
import WafRules.Proofs.QuoteParity

/-!
# The values that are read back from their canonical texts

The canonical text of a value is read as this value again exactly if the value is well
formed, for each of the models. A value that was read is readable, which for the most part
is the same. Only an argument that was read bare needs more, and there the whole text
counts: no form has the canonical text of readable actions that are not well formed.
-/

namespace WafRules

namespace Form

/-- The canonical text of a rule, cut in front of its actions, if the parts before them have
forms. -/
theorem Rule.render_eq_front {r : WafRules.Rule} {inputs : Inputs} {operator : Operator}
    (hinputs : inputs.text = WafRules.Inputs.render r.inputs)
    (hoperator : operator.text = r.operator.render) :
    r.render = front .none .space inputs .space operator .space
      (WafRules.Actions.render r.actions) := by
  simp [WafRules.Rule.render, front, Blanks.none, Gap.space, hinputs, hoperator]

end Form

/-- A readable rule is well formed if its canonical text is the text of a form. -/
theorem Rule.wellFormed_of_text_eq_render {r : Rule} (readable : r.Readable) {x : Form.Rule}
    (h : x.text = r.render) : r.WellFormed := by
  obtain ⟨inputs, hinputs⟩ := Form.exists_inputs_of_wellFormed readable.inputs
  obtain ⟨operator, operatorText, -⟩ := Form.exists_operator_of_wellFormed readable.operator
  rw [x.text_eq_front, Form.Rule.render_eq_front (inputs.text_eq_render hinputs) operatorText] at h
  have canonical : ∀ c ∈ (Actions.render r.actions).head?, isBlank c = false := by
    intro c hc
    cases hc
    rfl
  obtain ⟨-, actions⟩ := Form.front_inj (x.actions.head_not_blank _) canonical h
  exact readable.wellFormed (Actions.wellFormed_of_text_eq_render readable.actions actions)

theorem Input.parse_render_iff (i : Input) :
    Model.parse (Model.render i) = .ok i ↔ i.WellFormed := by
  constructor
  · intro h
    obtain ⟨x, -, hx⟩ := Form.parse_input_eq_ok_iff.mp h
    exact x.wellFormed_of_value hx
  · intro h
    obtain ⟨x, hx⟩ := Form.exists_input_of_wellFormed h
    exact Form.parse_input_eq_ok_iff.mpr ⟨x, x.text_eq_render hx, hx⟩

theorem Inputs.parse_render_iff (is : List Input) :
    Model.parse (Model.render is) = .ok is ↔ WellFormed is := by
  constructor
  · intro h
    obtain ⟨x, -, hx⟩ := Form.parse_inputs_eq_ok_iff.mp h
    exact x.wellFormed_of_value hx
  · intro h
    obtain ⟨x, hx⟩ := Form.exists_inputs_of_wellFormed h
    exact Form.parse_inputs_eq_ok_iff.mpr ⟨x, x.text_eq_render hx, hx⟩

theorem Operator.parse_render_iff (o : Operator) :
    Model.parse (Model.render o) = .ok o ↔ o.WellFormed := by
  constructor
  · intro h
    obtain ⟨x, -, hx⟩ := Form.parse_operator_eq_ok_iff.mp h
    exact x.wellFormed_of_value hx
  · intro h
    exact Form.parse_operator_eq_ok_iff.mpr (Form.exists_operator_of_wellFormed h)

theorem Action.parse_render_iff (a : Action) :
    Model.parse (Model.render a) = .ok a ↔ a.WellFormed := by
  constructor
  · intro h
    obtain ⟨x, htext, hx⟩ := Form.parse_action_eq_ok_iff.mp h
    exact wellFormed_of_text_eq_render (x.readable_of_value hx) htext
  · intro h
    exact Form.parse_action_eq_ok_iff.mpr (Form.exists_action_of_wellFormed h)

theorem Actions.parse_render_iff (as : List Action) :
    Model.parse (Model.render as) = .ok as ↔ WellFormed as := by
  constructor
  · intro h
    obtain ⟨x, htext, hx⟩ := Form.parse_actions_eq_ok_iff.mp h
    have closed : x.text ++ Form.Blanks.none.text = render as := (List.append_nil _).trans htext
    exact wellFormed_of_text_eq_render (x.readable_of_value hx) closed
  · intro h
    exact Form.parse_actions_eq_ok_iff.mpr (Form.exists_actions_of_wellFormed h)

/-- If the canonical text of a rule that was read is read at all, it is read as the rule. -/
theorem Rule.wellFormed_of_parse_render {r q : Rule} (readable : r.Readable)
    (h : Model.parse (Model.render r) = .ok q) : r.WellFormed := by
  obtain ⟨x, htext, -⟩ := Form.parse_rule_eq_ok_iff.mp h
  exact wellFormed_of_text_eq_render readable htext

theorem Rule.parse_render {r : Rule} (h : r.WellFormed) : Model.parse (Model.render r) = .ok r :=
  Form.parse_rule_eq_ok_iff.mpr (Form.exists_rule_of_wellFormed h)

theorem Rule.parse_render_iff (r : Rule) :
    Model.parse (Model.render r) = .ok r ↔ r.WellFormed :=
  ⟨fun h => wellFormed_of_parse_render (readable_of_parse h) h, parse_render⟩

/-- For every model the values that are read back from their canonical texts are the
well-formed ones. -/
theorem Model.parse_render_eq_ok_iff_wellFormed :
    (∀ i : Input, Model.parse (Model.render i) = .ok i ↔ i.WellFormed) ∧
    (∀ is : List Input, Model.parse (Model.render is) = .ok is ↔ Inputs.WellFormed is) ∧
    (∀ o : Operator, Model.parse (Model.render o) = .ok o ↔ o.WellFormed) ∧
    (∀ a : Action, Model.parse (Model.render a) = .ok a ↔ a.WellFormed) ∧
    (∀ as : List Action, Model.parse (Model.render as) = .ok as ↔ Actions.WellFormed as) ∧
    (∀ r : Rule, Model.parse (Model.render r) = .ok r ↔ r.WellFormed) :=
  ⟨Input.parse_render_iff, Inputs.parse_render_iff, Operator.parse_render_iff,
    Action.parse_render_iff, Actions.parse_render_iff, Rule.parse_render_iff⟩

end WafRules
