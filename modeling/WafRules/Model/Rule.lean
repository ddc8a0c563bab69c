import WafRules.Model.Action
import WafRules.Model.Input
import WafRules.Model.Operator

/-!
# Rules

A rule has inputs, one operator and actions. It is never made from a tree with a
fault: the parts are read in this order, and the first that cannot be read is named
in the error.

A rule and its parts also have a long form, in which they are shown to someone who looks
for a mistake: the name of the type and all fields by name, down to the words, which show
their symbol and their spelling. It is only shown and never read.
-/

namespace WafRules

structure Rule where
  inputs : List Input
  operator : Operator
  actions : List Action
  deriving DecidableEq

/-- Reads the next child as a part of a rule. -/
def Cursor.part {α : Type} (part : Part) (kind : NodeKind)
    (read : Node → Except Fault α) (cursor : Cursor) : Except ReadError (α × Cursor) :=
  (do let (child, cursor) ← cursor.take (some kind)
      return (← read child, cursor)).mapError (ReadError.part part)

namespace Rule

def ofNode (node : Node) : Except ReadError Rule := do
  (node.expect .secRule).mapError .fault
  let (inputs, cursor) ← node.cursor.part .inputs .inputs Inputs.ofNode
  let (operator, cursor) ← cursor.part .operator .operator Operator.ofNode
  let (actions, _) ← cursor.part .actions .actions Actions.ofNode
  return ⟨inputs, operator, actions⟩

def render (r : Rule) : Text :=
  Grammar.directiveWord.toList ++ ' ' :: Inputs.render r.inputs ++
    ' ' :: Operator.render r.operator ++ ' ' :: Actions.render r.actions

/-- The argument of the first action that gives an identifier. -/
def id? (r : Rule) : Option Text := (Actions.get? .id r.actions).bind Action.argument

instance : Model Rule where
  kind := .secRule
  ofNode := ofNode
  render := render

end Rule

/-- A word of the named vocabulary. -/
def inspectWord {α : Type} [Vocabulary α] (vocabulary : String) (a : α) : String :=
  let spelling := quotedString (Vocabulary.spelling a)
  s!"<{vocabulary}.{Vocabulary.symbol a}: {spelling}>"

/-- A value of the named type with its fields. -/
def inspectFields (type : String) (fields : List (String × String)) : String :=
  let shown := ", ".intercalate (fields.map fun (name, value) => s!"{name}={value}")
  s!"{type}({shown})"

/-- A list of the named type with its items. -/
def inspectItems (type : String) (items : List String) : String :=
  let shown := ", ".intercalate items
  s!"{type}([{shown}])"

def inspectText? (s : Option Text) : String := s.elim "None" Text.quoted

def inspectBool (b : Bool) : String := if b then "True" else "False"

class Inspect (α : Type) where
  inspect : α → String

export Inspect (inspect)

instance : Inspect Selector where
  inspect s := inspectFields "Selector"
    [("kind", inspectWord "SelectorKind" s.kind), ("key", inspectText? s.keyText?)]

instance : Inspect Input where
  inspect i := inspectFields "Input"
    [("input", inspectWord "InputType" i.name), ("selector", inspect i.selector)]

instance : Inspect (List Input) where
  inspect inputs := inspectItems "InputList" (inputs.map inspect)

instance : Inspect Operator where
  inspect o := inspectFields "Operator"
    [("operator", inspectWord "OperatorType" o.name), ("argument", o.argument.quoted),
     ("negated", inspectBool o.negated)]

instance : Inspect Action where
  inspect a := inspectFields "Action"
    [("action", inspectWord "ActionType" a.name), ("argument", inspectText? a.argument)]

instance : Inspect (List Action) where
  inspect actions := inspectItems "ActionList" (actions.map inspect)

instance : Inspect Rule where
  inspect r := inspectFields "SecRule"
    [("inputs", inspect r.inputs), ("operator", inspect r.operator),
     ("actions", inspect r.actions)]

end WafRules
