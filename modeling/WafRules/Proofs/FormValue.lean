import WafRules.Model.Rule
import WafRules.Proofs.Acceptance
import WafRules.Proofs.Outcomes

/-!
# Values of written forms

What a form stands for, or why it stands for nothing. The tree of a form is read as the
value of the form, so that reading a text and finding a form with this text are the same.
-/

namespace WafRules

namespace Form

/-- The value of an input, which needs a known name and a mark that fits the key. -/
def Input.value (x : Form.Input) : Except Fault WafRules.Input :=
  match Vocabulary.ofText? x.name.text with
  | none => .error (.unknownInput x.name.text)
  | some name =>
    (Selector.ofWritten (x.mark.map Mark.text) (x.key.map Token.Word.text) x.text).map
      (WafRules.Input.mk name)

def Inputs.value (x : Form.Inputs) : Except Fault (List WafRules.Input) :=
  x.all.mapM Input.value

def Operator.value (x : Form.Operator) : Except Fault WafRules.Operator :=
  match x.test with
  | .implicit argument _ => .ok ⟨.rx, argument.text, x.negated⟩
  | .named name argument =>
    match Vocabulary.ofText? (name.text.drop 1) with
    | none => .error (.unknownOperator (name.text.drop 1) x.text)
    | some known => .ok ⟨known, argument.elim [] fun a => a.2.text, x.negated⟩

def Action.value (x : Form.Action) : Except Fault WafRules.Action :=
  match Vocabulary.ofText? x.name.text with
  | none => .error (.unknownAction x.name.text x.text)
  | some name => .ok ⟨name, x.argument.map fun a => WafRules.Action.unquote a.text⟩

def Actions.value (x : Form.Actions) : Except Fault (List WafRules.Action) :=
  x.all.mapM Action.value

def Rule.value (x : Form.Rule) : Except ReadError WafRules.Rule := do
  let inputs ← x.inputs.value.mapError (.part .inputs)
  let operator ← x.operator.value.mapError (.part .operator)
  let actions ← x.actions.value.mapError (.part .actions)
  return ⟨inputs, operator, actions⟩

/-- Reading the tree of an input gives its value. -/
theorem Input.ofNode_node (x : Form.Input) (start : Nat) :
    WafRules.Input.ofNode (x.node start) = x.value := by
  obtain ⟨mark, name, key⟩ := x
  cases mark <;> cases key <;> rfl

theorem Operator.ofNode_node (x : Form.Operator) (start : Nat) :
    WafRules.Operator.ofNode (x.node start) = x.value := by
  obtain ⟨negated, test⟩ := x
  cases test with
  | implicit argument starts =>
    cases negated <;> rfl
  | named name argument =>
    cases negated <;> cases argument <;>
      simp [WafRules.Operator.ofNode, value, node, nodes, markNodes, Test.nodes, Test.argumentNodes,
        markText, Node.expect, Node.cursor, Cursor.takeIf, Cursor.peek, Cursor.advance, bind,
        Except.bind, pure, Except.pure, WafRules.Operator.nameOfNode, -List.drop_one] <;>
      cases (Vocabulary.ofText? (name.text.drop 1) : Option OperatorName) <;> rfl

theorem Action.ofNode_node (x : Form.Action) (start : Nat) :
    WafRules.Action.ofNode (x.node start) = x.value := by
  obtain ⟨name, argument⟩ := x
  cases argument <;> rfl

theorem Inputs.mapM_moreNodes (xs : List Form.Input) (start : Nat) :
    (moreNodes xs start).mapM WafRules.Input.ofNode = xs.mapM Input.value := by
  induction xs generalizing start with
  | nil => rfl
  | cons x xs ih => simp only [moreNodes, List.mapM_cons, Input.ofNode_node, ih]

theorem Inputs.ofNode_node (x : Form.Inputs) (start : Nat) :
    WafRules.Inputs.ofNode (x.node start) = x.value := by
  have nodes : (x.nodes start).mapM WafRules.Input.ofNode = x.value := by
    simp only [nodes, value, all, List.mapM_cons, Input.ofNode_node, mapM_moreNodes]
  exact nodes

theorem Actions.mapM_moreNodes (xs : List NextAction) (start : Nat) :
    (moreNodes xs start).mapM WafRules.Action.ofNode =
      (xs.map NextAction.action).mapM Action.value := by
  induction xs generalizing start with
  | nil => rfl
  | cons x xs ih =>
    simp only [moreNodes, List.map_cons, List.mapM_cons, Action.ofNode_node, ih]

theorem Actions.ofNode_node (x : Form.Actions) (start : Nat) :
    WafRules.Actions.ofNode (x.node start) = x.value := by
  have nodes : (x.nodes start).mapM WafRules.Action.ofNode = x.value := by
    cases x with
    | empty blanks => rfl
    | listed opening first more closing =>
      simp only [nodes, value, all, List.mapM_cons, Action.ofNode_node, mapM_moreNodes]
  exact nodes

/-- A child of the right kind is read, and a fault in it is put down to the part. -/
theorem part_of_peek {α : Type} (part : Part) (read : Node → Except Fault α) {c : Cursor}
    {child : Node} (h : c.peek = some child) :
    c.part part child.kind read =
      ((read child).mapError (.part part)).map fun value => (value, c.advance) := by
  simp only [Cursor.part, Cursor.take, h, Node.expect, if_true, Except.map, bind, Except.bind]
  cases read child <;> rfl

theorem Rule.ofNode_node (x : Form.Rule) (start : Nat) :
    WafRules.Rule.ofNode (x.node start) = x.value := by
  let behindInputs : Cursor := ⟨x.node start, 1⟩
  let behindOperator : Cursor := ⟨x.node start, 2⟩
  have first : (x.node start).cursor.peek = some (x.inputs.node (x.inputsStart start)) := rfl
  have second : behindInputs.peek = some (x.operator.node (x.operatorStart start)) := rfl
  have third : behindOperator.peek = some (x.actions.node (x.actionsStart start)) := rfl
  have inputs : (x.node start).cursor.part .inputs .inputs WafRules.Inputs.ofNode = _ :=
    part_of_peek .inputs _ first
  have operator : behindInputs.part .operator .operator WafRules.Operator.ofNode = _ :=
    part_of_peek .operator _ second
  have actions : behindOperator.part .actions .actions WafRules.Actions.ofNode = _ :=
    part_of_peek .actions _ third
  rw [Inputs.ofNode_node] at inputs
  rw [Operator.ofNode_node] at operator
  rw [Actions.ofNode_node] at actions
  have expected : ((x.node start).expect .secRule).mapError ReadError.fault = .ok () := rfl
  simp only [WafRules.Rule.ofNode, value, expected, inputs, bind, Except.bind]
  cases x.inputs.value with
  | error e => rfl
  | ok is =>
    change (behindInputs.part .operator .operator _).bind _ = _
    rw [operator]
    cases x.operator.value with
    | error e => rfl
    | ok o =>
      change (behindOperator.part .actions .actions _).bind _ = _
      rw [actions]
      cases x.actions.value <;> rfl

end Form

/-- An accepted text is read as its tree is. -/
theorem Model.parse_eq_ofNode {α : Type} [Model α] {s : Text} {node : Node}
    (tree : Node.parse (Model.kind α) s = .ok node) :
    (Model.parse s : Except ReadError α) = Model.ofNode node := by
  rw [Model.parse, tree]

/-- A text without a tree is rejected. -/
theorem Model.parse_eq_rejected {α : Type} [Model α] {s : Text} {e : SyntaxError}
    (h : Node.parse (Model.kind α) s = .error e) :
    (Model.parse s : Except ReadError α) = .error (.rejected e) := by
  rw [Model.parse, h]

section OfForms

variable {α β : Type} [Model α] {text : β → Text} {node : β → Node}

/-- The text of a form is read as its tree is. -/
theorem Model.parse_text_of_forms
    (trees : ∀ s n, Node.parse (Model.kind α) s = .ok n ↔ ∃ x, text x = s ∧ node x = n) (x : β) :
    (Model.parse (text x) : Except ReadError α) = Model.ofNode (node x) :=
  Model.parse_eq_ofNode ((trees _ _).mpr ⟨x, rfl, rfl⟩)

/-- A text is read as a value exactly if it has a form with this value. -/
theorem Model.parse_eq_ok_iff_of_forms {ε : Type} {value : β → Except ε α}
    (trees : ∀ s n, Node.parse (Model.kind α) s = .ok n ↔ ∃ x, text x = s ∧ node x = n)
    (values : ∀ x v, Model.ofNode (node x) = .ok v ↔ value x = .ok v) {s : Text} {v : α} :
    Model.parse s = .ok v ↔ ∃ x, text x = s ∧ value x = .ok v := by
  constructor
  · intro h
    simp only [Model.parse] at h
    split at h
    · contradiction
    · rename_i n hn
      obtain ⟨x, hx, rfl⟩ := (trees s n).mp hn
      exact ⟨x, hx, (values x v).mp h⟩
  · rintro ⟨x, rfl, hv⟩
    rw [Model.parse_text_of_forms trees]
    exact (values x v).mpr hv

end OfForms

namespace Form

variable {s : Text}

theorem parse_input_eq_ok_iff {i : WafRules.Input} :
    Model.parse s = .ok i ↔ ∃ x : Form.Input, x.text = s ∧ x.value = .ok i :=
  Model.parse_eq_ok_iff_of_forms (fun _ _ => Node.parse_input_eq_ok_iff)
    (fun x _ => mapError_eq_ok_iff.trans (by rw [x.ofNode_node]))

theorem parse_inputs_eq_ok_iff {is : List WafRules.Input} :
    Model.parse s = .ok is ↔ ∃ x : Form.Inputs, x.text = s ∧ x.value = .ok is :=
  Model.parse_eq_ok_iff_of_forms (fun _ _ => Node.parse_inputs_eq_ok_iff)
    (fun x _ => mapError_eq_ok_iff.trans (by rw [x.ofNode_node]))

theorem parse_operator_eq_ok_iff {o : WafRules.Operator} :
    Model.parse s = .ok o ↔ ∃ x : Form.Operator, x.text = s ∧ x.value = .ok o :=
  Model.parse_eq_ok_iff_of_forms (fun _ _ => Node.parse_operator_eq_ok_iff)
    (fun x _ => mapError_eq_ok_iff.trans (by rw [x.ofNode_node]))

theorem parse_action_eq_ok_iff {a : WafRules.Action} :
    Model.parse s = .ok a ↔ ∃ x : Form.Action, x.text = s ∧ x.value = .ok a :=
  Model.parse_eq_ok_iff_of_forms (fun _ _ => Node.parse_action_eq_ok_iff)
    (fun x _ => mapError_eq_ok_iff.trans (by rw [x.ofNode_node]))

theorem parse_actions_eq_ok_iff {as : List WafRules.Action} :
    Model.parse s = .ok as ↔ ∃ x : Form.Actions, x.text = s ∧ x.value = .ok as :=
  Model.parse_eq_ok_iff_of_forms (fun _ _ => Node.parse_actions_eq_ok_iff)
    (fun x _ => mapError_eq_ok_iff.trans (by rw [x.ofNode_node]))

theorem parse_rule_eq_ok_iff {r : WafRules.Rule} :
    Model.parse s = .ok r ↔ ∃ x : Form.Rule, x.text = s ∧ x.value = .ok r :=
  Model.parse_eq_ok_iff_of_forms (fun _ _ => Node.parse_secRule_eq_ok_iff)
    (fun x _ => by rw [← x.ofNode_node 0]; rfl)

theorem Rule.value_eq_ok_iff {x : Form.Rule} {r : WafRules.Rule} :
    x.value = .ok r ↔ x.inputs.value = .ok r.inputs ∧ x.operator.value = .ok r.operator ∧
      x.actions.value = .ok r.actions := by
  rw [value]
  constructor
  · intro h
    cases hi : x.inputs.value with
    | error e => rw [hi] at h; cases h
    | ok is =>
      cases ho : x.operator.value with
      | error e => rw [hi, ho] at h; cases h
      | ok o =>
        cases ha : x.actions.value with
        | error e => rw [hi, ho, ha] at h; cases h
        | ok as =>
          rw [hi, ho, ha] at h
          cases h
          exact ⟨rfl, rfl, rfl⟩
  · rintro ⟨inputs, operator, actions⟩
    rw [inputs, operator, actions]
    rfl

/-- The first part with an error decides. -/
theorem Rule.value_eq_error_iff_first {x : Form.Rule} {e : ReadError} :
    x.value = .error e ↔
      (∃ f, e = .part .inputs f ∧ x.inputs.value = .error f) ∨
      (∃ f, e = .part .operator f ∧ (∃ is, x.inputs.value = .ok is) ∧
        x.operator.value = .error f) ∨
      ∃ f, e = .part .actions f ∧ (∃ is, x.inputs.value = .ok is) ∧
        (∃ o, x.operator.value = .ok o) ∧ x.actions.value = .error f := by
  rw [value]
  constructor
  · intro h
    cases hi : x.inputs.value with
    | error f =>
      rw [hi] at h
      exact .inl ⟨f, (Except.error.inj h).symm, rfl⟩
    | ok is =>
      cases ho : x.operator.value with
      | error f =>
        rw [hi, ho] at h
        exact .inr (.inl ⟨f, (Except.error.inj h).symm, ⟨is, rfl⟩, rfl⟩)
      | ok o =>
        cases ha : x.actions.value with
        | error f =>
          rw [hi, ho, ha] at h
          exact .inr (.inr ⟨f, (Except.error.inj h).symm, ⟨is, rfl⟩, ⟨o, rfl⟩, rfl⟩)
        | ok as => rw [hi, ho, ha] at h; cases h
  · rintro (⟨f, rfl, hi⟩ | ⟨f, rfl, ⟨is, hi⟩, ho⟩ | ⟨f, rfl, ⟨is, hi⟩, ⟨o, ho⟩, ha⟩)
    · rw [hi]
      rfl
    · rw [hi, ho]
      rfl
    · rw [hi, ho, ha]
      rfl

/-- The text of a form is read as the value of the form, or with its error. -/
theorem Input.parse_text (x : Form.Input) :
    (Model.parse x.text : Except ReadError WafRules.Input) = x.value.mapError .fault :=
  (Model.parse_text_of_forms (fun _ _ => Node.parse_input_eq_ok_iff) x).trans
    (congrArg (Except.mapError ReadError.fault) (x.ofNode_node 0))

theorem Inputs.parse_text (x : Form.Inputs) :
    (Model.parse x.text : Except ReadError (List WafRules.Input)) = x.value.mapError .fault :=
  (Model.parse_text_of_forms (fun _ _ => Node.parse_inputs_eq_ok_iff) x).trans
    (congrArg (Except.mapError ReadError.fault) (x.ofNode_node 0))

theorem Operator.parse_text (x : Form.Operator) :
    (Model.parse x.text : Except ReadError WafRules.Operator) = x.value.mapError .fault :=
  (Model.parse_text_of_forms (fun _ _ => Node.parse_operator_eq_ok_iff) x).trans
    (congrArg (Except.mapError ReadError.fault) (x.ofNode_node 0))

theorem Action.parse_text (x : Form.Action) :
    (Model.parse x.text : Except ReadError WafRules.Action) = x.value.mapError .fault :=
  (Model.parse_text_of_forms (fun _ _ => Node.parse_action_eq_ok_iff) x).trans
    (congrArg (Except.mapError ReadError.fault) (x.ofNode_node 0))

theorem Actions.parse_text (x : Form.Actions) :
    (Model.parse x.text : Except ReadError (List WafRules.Action)) = x.value.mapError .fault :=
  (Model.parse_text_of_forms (fun _ _ => Node.parse_actions_eq_ok_iff) x).trans
    (congrArg (Except.mapError ReadError.fault) (x.ofNode_node 0))

theorem Rule.parse_text (x : Form.Rule) :
    (Model.parse x.text : Except ReadError WafRules.Rule) = x.value :=
  (Model.parse_text_of_forms (fun _ _ => Node.parse_secRule_eq_ok_iff) x).trans (x.ofNode_node 0)

end Form

end WafRules
