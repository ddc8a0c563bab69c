import WafRules.Text.Quoted
import WafRules.Vocabulary

/-!
# Parse trees

A node of a parse tree has a kind, the text it stands for, its children in order and
its offset in the text that was read. Each kind is also a rule of the grammar, and its
spelling is the name of that rule. A tree may also be put together by hand. Nothing
here asks the children to fit the kind or their texts to fit the text of the parent;
that is a property of the trees that the grammar builds.

A fault is why a node does not stand for a value. It names its cause; the wording is in
`Fault.message` alone. Faults that concern the words of a rule keep the text they stand
in, so that the place can be found again.
-/

namespace WafRules

/-- The kind of a node. -/
inductive NodeKind where
  | secRule
  | inputs | input | inputModifier | inputName | selector
  | operator | operatorNegation | operatorName | operatorArgument
  | actions | action | actionName | actionArgument
  deriving DecidableEq

namespace NodeKind

def all : List NodeKind :=
  [.secRule, .inputs, .input, .inputModifier, .inputName, .selector, .operator,
   .operatorNegation, .operatorName, .operatorArgument, .actions, .action,
   .actionName, .actionArgument]

def spelling : NodeKind → String
  | .secRule => "sec_rule"
  | .inputs => "inputs"
  | .input => "input"
  | .inputModifier => "input_modifier"
  | .inputName => "input_name"
  | .selector => "selector"
  | .operator => "operator"
  | .operatorNegation => "operator_negation"
  | .operatorName => "operator_name"
  | .operatorArgument => "operator_argument"
  | .actions => "actions"
  | .action => "action"
  | .actionName => "action_name"
  | .actionArgument => "action_argument"

instance : Vocabulary NodeKind where
  all := all
  spelling := spelling
  mem_all a := by cases a <;> decide
  spellings_nodup := by decide

end NodeKind

structure Node where
  kind : NodeKind
  text : Text
  children : List Node := []
  start : Nat := 0

inductive Fault where
  /-- A node of another kind stands where one of the expected kind is needed. -/
  | unexpectedKind (kind expected : NodeKind)
  /-- The children of the node with this text are used up. -/
  | missingChild (expected : Option NodeKind) (text : Text)
  | unknownInput (name : Text)
  /-- The modifier and the key do not make a selector. -/
  | invalidSelector (text : Text)
  | invalidModifier (modifier text : Text)
  | unknownOperator (name text : Text)
  | unknownAction (name text : Text)
  deriving DecidableEq

namespace Fault

def message : Fault → String
  | unexpectedKind kind expected =>
    s!"invalid rule {quotedString kind.spelling} (expected {quotedString expected.spelling})"
  | missingChild expected text =>
    let what := expected.elim "node" fun kind => quotedString kind.spelling
    s!"missing {what} in {text.quoted}"
  | unknownInput name => s!"unknown input {String.ofList name}"
  | invalidSelector text => s!"invalid input selector {String.ofList text}"
  | invalidModifier modifier text =>
    s!"invalid input modifier {modifier.quoted} in {String.ofList text}"
  | unknownOperator name text =>
    s!"unknown operator @{String.ofList name} in {String.ofList text}"
  | unknownAction name text =>
    s!"unknown action {String.ofList name} in {String.ofList text}"

end Fault

end WafRules
