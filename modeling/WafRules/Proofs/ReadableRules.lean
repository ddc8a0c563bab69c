import WafRules.Proofs.Canonical

/-!
# Which rules can be read

A rule is what some text is read as exactly if it is readable. In one direction this is
said of the forms: each has a readable value. In the other a form is put together for the
rule, part by part. Inputs and operators are written canonically. An action is not, because
its canonical text may put an argument between quotes that can only stand bare.

Names are not asked for anything: all words of the vocabularies are words of the grammar,
and they may be combined, negated, ordered and repeated at will. That a key fits its
selector is part of what a selector is.
-/

namespace WafRules

namespace Form

/-- An argument stands bare if it can, and between quotes otherwise. -/
theorem exists_argument_of_readable {s : Text}
    (h : (s ≠ [] ∧ ∀ c ∈ s, isBareChar c = true) ∨ Escaped '\'' s) :
    ∃ word : ActionArgument, WafRules.Action.unquote word.text = s := by
  rcases h with bare | escaped
  · exact ⟨.bare ⟨s, bare⟩, unquote_bare ⟨s, bare⟩⟩
  · exact ⟨.quoted ⟨_, s, rfl, escaped⟩, unquote_quoted s⟩

theorem exists_action_of_readable {a : WafRules.Action} (h : a.Readable) :
    ∃ x : Form.Action, x.value = .ok a := by
  obtain ⟨name, argument⟩ := a
  let word : Token.Word .actionName := ⟨_, actionName_language name⟩
  cases argument with
  | none =>
    refine ⟨⟨word, none⟩, ?_⟩
    simp [Action.value, word]
  | some s =>
    obtain ⟨written, hs⟩ := exists_argument_of_readable (h s rfl)
    refine ⟨⟨word, some written⟩, ?_⟩
    simp [Action.value, word, hs]

theorem exists_actions_of_readable {as : List WafRules.Action}
    (h : WafRules.Actions.Readable as) : ∃ x : Form.Actions, x.value = .ok as := by
  obtain ⟨xs, hxs⟩ := exists_map_eq_map fun a ha => exists_action_of_readable (h a ha)
  refine ⟨.plain xs, mapM_eq_ok_iff.mpr ?_⟩
  rw [Actions.all_plain, hxs]

theorem exists_rule_of_readable {r : WafRules.Rule} (h : r.Readable) :
    ∃ x : Form.Rule, x.value = .ok r := by
  obtain ⟨inputs, hinputs⟩ := exists_inputs_of_wellFormed h.inputs
  obtain ⟨operator, -, hoperator⟩ := exists_operator_of_wellFormed h.operator
  obtain ⟨actions, hactions⟩ := exists_actions_of_readable h.actions
  exact ⟨⟨.none, .space, inputs, .space, operator, .space, actions, .none⟩,
    Rule.value_eq_ok_iff.mpr ⟨hinputs, hoperator, hactions⟩⟩

end Form

/-- The rules that texts are read as are the readable ones. -/
theorem Rule.exists_parse_eq_ok_iff_readable (r : Rule) :
    (∃ s, Model.parse s = .ok r) ↔ r.Readable := by
  constructor
  · rintro ⟨s, h⟩
    exact readable_of_parse h
  · intro h
    obtain ⟨x, hx⟩ := Form.exists_rule_of_readable h
    exact ⟨x.text, Form.parse_rule_eq_ok_iff.mpr ⟨x, rfl, hx⟩⟩

end WafRules
