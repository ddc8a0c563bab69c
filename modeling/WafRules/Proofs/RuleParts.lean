import WafRules.Proofs.FormSplitting
import WafRules.Proofs.FormValue

/-!
# The parts of a rule

A rule is read as its parts are read on their own. Where a part ends does not depend on
what stands around it, although the key of an input may hold quotes, an operator blanks and
escaped quotes, and an argument of an action blanks and double quotes. So any accepted
parts make an accepted rule, whichever blanks stand between them, and an accepted rule is
made of one choice of parts and blanks only.

Of the parts that cannot be read the first one decides, with the fault that it has alone.
-/

namespace WafRules

/-- A text that is accepted as a node of the kind. -/
@[ext]
structure Accepted (kind : NodeKind) where
  text : Text
  accepted : ∃ node, Node.parse kind text = .ok node

namespace Rule

/-- Accepted texts for the parts of a rule, with the blanks around them. -/
@[ext]
structure Parts where
  lead : Form.Blanks
  gap : Form.Gap
  inputs : Accepted .inputs
  operatorGap : Form.Gap
  operator : Accepted .operator
  actionsGap : Form.Gap
  actions : Accepted .actions
  trail : Form.Blanks

namespace Parts

def text (x : Parts) : Text :=
  x.lead.text ++ (Grammar.directiveWord.toList ++ (x.gap.text ++ (x.inputs.text ++
    (x.operatorGap.text ++ (x.operator.text ++ (x.actionsGap.text ++
      (x.actions.text ++ x.trail.text)))))))

def readInputs (x : Parts) : Except ReadError (List Input) := Model.parse x.inputs.text

def readOperator (x : Parts) : Except ReadError Operator := Model.parse x.operator.text

def readActions (x : Parts) : Except ReadError (List Action) := Model.parse x.actions.text

/-- What a rule is read as, said of its parts read alone. -/
inductive ReadAs (x : Parts) : Except ReadError Rule → Prop
  | rule {is : List Input} {o : Operator} {as : List Action} : x.readInputs = .ok is →
      x.readOperator = .ok o → x.readActions = .ok as → x.ReadAs (.ok ⟨is, o, as⟩)
  | inputs {e : Fault} : x.readInputs = .error (.fault e) → x.ReadAs (.error (.part .inputs e))
  | operator {is : List Input} {e : Fault} : x.readInputs = .ok is →
      x.readOperator = .error (.fault e) → x.ReadAs (.error (.part .operator e))
  | actions {is : List Input} {o : Operator} {e : Fault} : x.readInputs = .ok is →
      x.readOperator = .ok o → x.readActions = .error (.fault e) →
      x.ReadAs (.error (.part .actions e))

end Parts

end Rule

namespace Form

/-- The parts that a form consists of. -/
def Rule.parts (x : Form.Rule) : WafRules.Rule.Parts where
  lead := x.lead
  gap := x.gap
  inputs := ⟨x.inputs.text, _, Node.parse_inputs_eq_ok_iff.mpr ⟨x.inputs, rfl, rfl⟩⟩
  operatorGap := x.operatorGap
  operator := ⟨x.operator.text, _, Node.parse_operator_eq_ok_iff.mpr ⟨x.operator, rfl, rfl⟩⟩
  actionsGap := x.actionsGap
  actions := ⟨x.actions.text, _, Node.parse_actions_eq_ok_iff.mpr ⟨x.actions, rfl, rfl⟩⟩
  trail := x.trail

theorem Rule.text_parts (x : Form.Rule) : x.parts.text = x.text := rfl

theorem Rule.readInputs_parts (x : Form.Rule) :
    x.parts.readInputs = x.inputs.value.mapError .fault :=
  x.inputs.parse_text

theorem Rule.readOperator_parts (x : Form.Rule) :
    x.parts.readOperator = x.operator.value.mapError .fault :=
  x.operator.parse_text

theorem Rule.readActions_parts (x : Form.Rule) :
    x.parts.readActions = x.actions.value.mapError .fault :=
  x.actions.parse_text

theorem mapError_fault_eq_error_iff {α : Type} {x : Except Fault α} {e : Fault} :
    x.mapError ReadError.fault = .error (.fault e) ↔ x = .error e := by
  simp [mapError_eq_error_iff]

/-- The value of a form is what its parts are read as. -/
theorem Rule.readAs_parts_iff {x : Form.Rule} {result : Except ReadError WafRules.Rule} :
    x.parts.ReadAs result ↔ x.value = result := by
  have inputsOk {is} : x.parts.readInputs = .ok is ↔ x.inputs.value = .ok is := by
    rw [x.readInputs_parts, mapError_eq_ok_iff]
  have operatorOk {o} : x.parts.readOperator = .ok o ↔ x.operator.value = .ok o := by
    rw [x.readOperator_parts, mapError_eq_ok_iff]
  constructor
  · intro h
    cases h with
    | rule hi ho ha =>
      rw [x.readActions_parts, mapError_eq_ok_iff] at ha
      exact value_eq_ok_iff.mpr ⟨inputsOk.mp hi, operatorOk.mp ho, ha⟩
    | inputs hi =>
      rw [x.readInputs_parts, mapError_fault_eq_error_iff] at hi
      exact value_eq_error_iff_first.mpr (.inl ⟨_, rfl, hi⟩)
    | operator hi ho =>
      rw [x.readOperator_parts, mapError_fault_eq_error_iff] at ho
      exact value_eq_error_iff_first.mpr (.inr (.inl ⟨_, rfl, ⟨_, inputsOk.mp hi⟩, ho⟩))
    | actions hi ho ha =>
      rw [x.readActions_parts, mapError_fault_eq_error_iff] at ha
      exact value_eq_error_iff_first.mpr
        (.inr (.inr ⟨_, rfl, ⟨_, inputsOk.mp hi⟩, ⟨_, operatorOk.mp ho⟩, ha⟩))
  · intro h
    cases result with
    | ok r =>
      obtain ⟨hi, ho, ha⟩ := value_eq_ok_iff.mp h
      refine .rule (inputsOk.mpr hi) (operatorOk.mpr ho) ?_
      rw [x.readActions_parts, mapError_eq_ok_iff, ha]
    | error e =>
      rcases value_eq_error_iff_first.mp h with
        ⟨f, rfl, hi⟩ | ⟨f, rfl, ⟨is, hi⟩, ho⟩ | ⟨f, rfl, ⟨is, hi⟩, ⟨o, ho⟩, ha⟩
      · refine .inputs ?_
        rw [x.readInputs_parts, mapError_fault_eq_error_iff, hi]
      · refine .operator (inputsOk.mpr hi) ?_
        rw [x.readOperator_parts, mapError_fault_eq_error_iff, ho]
      · refine .actions (inputsOk.mpr hi) (operatorOk.mpr ho) ?_
        rw [x.readActions_parts, mapError_fault_eq_error_iff, ha]

end Form

namespace Rule

namespace Parts

/-- Accepted parts have forms, and so have the rules that are made of them. -/
theorem exists_form (x : Parts) : ∃ y : Form.Rule, y.parts = x := by
  obtain ⟨lead, gap, ⟨_, _, hi⟩, operatorGap, ⟨_, _, ho⟩, actionsGap, ⟨_, _, ha⟩, trail⟩ := x
  obtain ⟨inputs, rfl, -⟩ := Node.parse_inputs_eq_ok_iff.mp hi
  obtain ⟨operator, rfl, -⟩ := Node.parse_operator_eq_ok_iff.mp ho
  obtain ⟨actions, rfl, -⟩ := Node.parse_actions_eq_ok_iff.mp ha
  exact ⟨⟨lead, gap, inputs, operatorGap, operator, actionsGap, actions, trail⟩, rfl⟩

theorem parse_text_eq_iff {x : Parts} {result : Except ReadError Rule} :
    Model.parse x.text = result ↔ x.ReadAs result := by
  obtain ⟨y, rfl⟩ := x.exists_form
  rw [y.text_parts, y.parse_text, Form.Rule.readAs_parts_iff]

theorem text_injective {x y : Parts} (h : x.text = y.text) : x = y := by
  obtain ⟨x, rfl⟩ := x.exists_form
  obtain ⟨y, rfl⟩ := y.exists_form
  obtain ⟨lead, gap, inputs, operatorGap, operator, actionsGap, actions, trail⟩ :=
    Form.Rule.text_inj h
  exact Parts.ext (Form.Blanks.ext lead) (Form.Gap.ext gap) (Accepted.ext inputs)
    (Form.Gap.ext operatorGap) (Accepted.ext operator) (Form.Gap.ext actionsGap)
    (Accepted.ext actions) (Form.Blanks.ext trail)

theorem exists_text_eq_iff {s : Text} :
    (∃ x : Parts, x.text = s) ↔ ∃ node, Node.parse .secRule s = .ok node := by
  constructor
  · rintro ⟨x, rfl⟩
    obtain ⟨y, rfl⟩ := x.exists_form
    exact ⟨y.node 0, Node.parse_secRule_eq_ok_iff.mpr ⟨y, rfl, rfl⟩⟩
  · rintro ⟨node, h⟩
    obtain ⟨y, rfl, -⟩ := Node.parse_secRule_eq_ok_iff.mp h
    exact ⟨y.parts, rfl⟩

end Parts

/-- A rule that is put together from accepted parts is read as they are read alone, and every
accepted rule is put together in exactly one way. -/
theorem parse_composes :
    (∀ (x : Parts) (result : Except ReadError Rule),
      Model.parse x.text = result ↔ x.ReadAs result) ∧
    ∀ s, (∃ node, Node.parse .secRule s = .ok node) ↔
      ∃ x : Parts, x.text = s ∧ ∀ y : Parts, y.text = s → y = x := by
  refine ⟨fun x result => Parts.parse_text_eq_iff, fun s => ?_⟩
  rw [← Parts.exists_text_eq_iff]
  constructor
  · rintro ⟨x, rfl⟩
    exact ⟨x, rfl, fun y h => Parts.text_injective h⟩
  · rintro ⟨x, hx, -⟩
    exact ⟨x, hx⟩

/-- The key has a quote in it, the operator an escaped one and a blank, and the argument of the
action a quote and blanks. -/
example : (Model.parse "SecRule ARGS:\"k \"@rx \\\" x\" \"msg:'a \" b'\"".toList :
    Except ReadError Rule).toOption =
      some ⟨[⟨.args, .only ⟨['"', 'k'], by decide⟩⟩], ⟨.rx, ['\\', '"', ' ', 'x'], false⟩,
        [⟨.msg, some "a \" b".toList⟩]⟩ := by decide +kernel

end Rule

end WafRules
