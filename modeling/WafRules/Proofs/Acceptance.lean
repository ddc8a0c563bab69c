import WafRules.Proofs.FormDescription
import WafRules.Proofs.FormReading

/-!
# What is accepted

A text is accepted as a node of some kind exactly if the production of that kind describes
it, so nothing is lost by ordered choice, greedy words or repetitions that give nothing
back. For the kinds that stand for values the tree is known too: it is the tree of the one
form that the text has.
-/

namespace WafRules

namespace Node

variable {kind : NodeKind} {s : Text} {node : Node}

/-- A kind whose forms are read in full and are all that the production describes. -/
theorem parse_eq_ok_iff_of_forms {α : Type} {text : α → Text} {nodes : α → Nat → List Node}
    (reads : ∀ x, (Grammar.production kind).body.Reads 0 (text x) [] (nodes x 0))
    (described : ∀ w r, (Grammar.production kind).body.Describes w r → ∃ x, text x = w) :
    Node.parse kind s = .ok node ↔
      ∃ x, text x = s ∧ (⟨kind, text x, nodes x 0, 0⟩ : Node) = node := by
  constructor
  · intro h
    obtain ⟨x, rfl⟩ := described s [] (describes_of_parse h)
    exact ⟨x, rfl, Except.ok.inj ((parse_of_reads (reads x)).symm.trans h)⟩
  · rintro ⟨x, rfl, rfl⟩
    exact parse_of_reads (reads x)

theorem parse_input_eq_ok_iff :
    Node.parse .input s = .ok node ↔ ∃ x : Form.Input, x.text = s ∧ x.node 0 = node :=
  parse_eq_ok_iff_of_forms (fun x => x.reads 0 (Text.beginsIn_nil _))
    (fun _ _ => Form.exists_input)

theorem parse_inputs_eq_ok_iff :
    Node.parse .inputs s = .ok node ↔ ∃ x : Form.Inputs, x.text = s ∧ x.node 0 = node :=
  parse_eq_ok_iff_of_forms (fun x => x.reads 0 (Text.beginsIn_nil _))
    (fun _ _ => Form.exists_inputs)

theorem parse_operator_eq_ok_iff :
    Node.parse .operator s = .ok node ↔ ∃ x : Form.Operator, x.text = s ∧ x.node 0 = node :=
  parse_eq_ok_iff_of_forms (fun x => x.reads 0 []) (fun _ _ => Form.exists_operator)

theorem parse_action_eq_ok_iff :
    Node.parse .action s = .ok node ↔ ∃ x : Form.Action, x.text = s ∧ x.node 0 = node :=
  parse_eq_ok_iff_of_forms (fun x => x.reads 0 (Text.beginsIn_nil _))
    (fun _ _ => Form.exists_action)

theorem parse_actions_eq_ok_iff :
    Node.parse .actions s = .ok node ↔ ∃ x : Form.Actions, x.text = s ∧ x.node 0 = node :=
  parse_eq_ok_iff_of_forms (fun x => x.reads 0 []) (fun _ _ => Form.exists_actions)

theorem parse_secRule_eq_ok_iff :
    Node.parse .secRule s = .ok node ↔ ∃ x : Form.Rule, x.text = s ∧ x.node 0 = node :=
  parse_eq_ok_iff_of_forms (fun x => x.reads 0 (by simp)) (fun _ _ => Form.exists_rule)

/-- The words of a class are read by the kind whose production is that class. -/
theorem exists_parse_of_token {t : Token}
    (body : (Grammar.production kind).body = .token t)
    (h : (Grammar.production kind).body.Describes s []) : ∃ node, Node.parse kind s = .ok node := by
  rw [body, Expr.describes_token] at h
  have reads : (Grammar.production kind).body.Reads 0 s [] [] := by
    rw [body]
    exact .token 0 h t.endsBefore_nil
  exact ⟨_, parse_of_reads reads⟩

/-- A text that has a form is accepted. -/
theorem exists_parse_of_form {α : Type} {text : α → Text} {nodes : α → List Node}
    (reads : ∀ x, (Grammar.production kind).body.Reads 0 (text x) [] (nodes x))
    (form : ∃ x, text x = s) : ∃ node, Node.parse kind s = .ok node := by
  obtain ⟨x, rfl⟩ := form
  exact ⟨_, parse_of_reads (reads x)⟩

/-- A described text is accepted, because it has a form. -/
theorem exists_parse_of_describes (h : (Grammar.production kind).body.Describes s []) :
    ∃ node, Node.parse kind s = .ok node := by
  have none (cs : List Char) : Text.BeginsIn cs [] := Text.beginsIn_nil cs
  cases kind with
  | secRule => exact exists_parse_of_form (fun x => x.reads 0 (by simp)) (Form.exists_rule h)
  | inputs => exact exists_parse_of_form (fun x => x.reads 0 (none _)) (Form.exists_inputs h)
  | input => exact exists_parse_of_form (fun x => x.reads 0 (none _)) (Form.exists_input h)
  | inputModifier => exact exists_parse_of_form (fun x => x.reads 0 []) (Form.exists_mark h)
  | operator => exact exists_parse_of_form (fun x => x.reads 0 []) (Form.exists_operator h)
  | operatorNegation =>
    exact exists_parse_of_form (fun _ : Unit => .literal 0 _ [])
      ⟨(), (Expr.describes_literal.mp h).symm⟩
  | actions => exact exists_parse_of_form (fun x => x.reads 0 []) (Form.exists_actions h)
  | action => exact exists_parse_of_form (fun x => x.reads 0 (none _)) (Form.exists_action h)
  | actionArgument =>
    exact exists_parse_of_form (fun x => Form.Action.word_reads x 0 (none _))
      (Form.exists_actionArgument h)
  | inputName => exact exists_parse_of_token rfl h
  | selector => exact exists_parse_of_token rfl h
  | operatorName => exact exists_parse_of_token rfl h
  | operatorArgument => exact exists_parse_of_token rfl h
  | actionName => exact exists_parse_of_token rfl h

/-- A text is accepted as a node of a kind if and only if its production describes it. -/
theorem exists_parse_iff_describes (kind : NodeKind) (s : Text) :
    (∃ node, Node.parse kind s = .ok node) ↔ (Grammar.production kind).body.Describes s [] := by
  constructor
  · rintro ⟨node, h⟩
    exact describes_of_parse h
  · exact exists_parse_of_describes

end Node

end WafRules
