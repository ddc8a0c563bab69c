import WafRules.Grammar.Expr

/-!
# The grammar of rules

One production for each rule name. A rule is the directive word, the inputs, one
operator and the actions, with blanks between them. The rules that make no node only
serve the shape: their nodes stand in the nearest rule above that makes one.
-/

namespace WafRules

/-- A rule name with its right-hand side. -/
structure Production where
  name : RuleName
  body : Expr

namespace Production

/-- The production as an expression inside another one. -/
def expr (p : Production) : Expr := .rule p.name p.body

instance : CoeOut Production Expr := ⟨expr⟩

end Production

namespace Grammar

/-- The word that every rule begins with. -/
def directiveWord : String := "SecRule"

def word (w : String) : Expr := .literal w.toList

/-- The expressions one after the other. -/
def inOrder : List Expr → Expr
  | [] => .literal []
  | [e] => e
  | e :: es => .seq e (inOrder es)

def blank : Production := ⟨.blank, .either (word " ") (word "\t")⟩

def inputModifier : Production := ⟨.node .inputModifier, .either (word "!") (word "&")⟩

def inputName : Production := ⟨.node .inputName, .token .inputName⟩

def selector : Production := ⟨.node .selector, .token .key⟩

def input : Production :=
  ⟨.node .input,
    inOrder [.optional inputModifier, inputName, .optional (inOrder [word ":", selector])]⟩

def inputs : Production :=
  ⟨.node .inputs, inOrder [input, .many (inOrder [word "|", input])]⟩

def operatorNegation : Production := ⟨.node .operatorNegation, word "!"⟩

def operatorName : Production := ⟨.node .operatorName, .token .operatorName⟩

def operatorArgument : Production := ⟨.node .operatorArgument, .token .operatorArgument⟩

def namedOperator : Production :=
  ⟨.namedOperator,
    inOrder [operatorName, .optional (inOrder [.manyOne blank, operatorArgument])]⟩

def implicitOperator : Production :=
  ⟨.implicitOperator, inOrder [.ahead (.token .implicitStart), operatorArgument]⟩

def operatorBody : Production := ⟨.operatorBody, .either namedOperator implicitOperator⟩

def operator : Production :=
  ⟨.node .operator,
    inOrder [word "\"", .optional operatorNegation, operatorBody, word "\""]⟩

def actionName : Production := ⟨.node .actionName, .token .actionName⟩

def actionArgument : Production :=
  ⟨.node .actionArgument, .either (.token .quotedArgument) (.token .bareArgument)⟩

def action : Production :=
  ⟨.node .action, inOrder [actionName, .optional (inOrder [word ":", actionArgument])]⟩

def actionList : Production :=
  ⟨.actionList,
    inOrder [action, .many (inOrder [.many blank, word ",", .many blank, action])]⟩

def actions : Production :=
  ⟨.node .actions,
    inOrder [word "\"", .many blank, .optional actionList, .many blank, word "\""]⟩

def secRule : Production :=
  ⟨.node .secRule,
    inOrder [.many blank, word directiveWord, .manyOne blank, inputs, .manyOne blank,
      operator, .manyOne blank, actions, .many blank]⟩

/-- The production for the nodes of a kind. -/
def production : NodeKind → Production
  | .secRule => secRule
  | .inputs => inputs
  | .input => input
  | .inputModifier => inputModifier
  | .inputName => inputName
  | .selector => selector
  | .operator => operator
  | .operatorNegation => operatorNegation
  | .operatorName => operatorName
  | .operatorArgument => operatorArgument
  | .actions => actions
  | .action => action
  | .actionName => actionName
  | .actionArgument => actionArgument

theorem name_production (kind : NodeKind) : (production kind).name = .node kind := by
  cases kind <;> rfl

end Grammar

end WafRules
