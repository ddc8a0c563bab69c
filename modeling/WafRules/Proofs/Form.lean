import WafRules.Proofs.Language

/-!
# Written forms

A written form is a text taken apart into the words and blanks that the grammar sees in
it. It keeps everything: blanks that mean nothing, spellings that no vocabulary knows and
escapes. Each form has its text and the nodes that a reader makes of it. The proofs that a
form carries are those that the grammar itself asks for.

Blanks in front of the argument of an operator, or in an empty list of actions, are
written in one place only, so that a text has one form.
-/

namespace WafRules

/-- A word of a class. -/
structure Token.Word (t : Token) where
  text : Text
  language : t.Language text

/-- The text is empty, or begins with one of the characters. -/
def Text.BeginsIn (cs : List Char) (s : Text) : Prop := ∀ c ∈ s.head?, c ∈ cs

theorem Text.beginsIn_nil (cs : List Char) : Text.BeginsIn cs [] := by
  intro c hc
  cases hc

theorem Text.beginsIn_cons {cs : List Char} {c : Char} {s : Text} :
    Text.BeginsIn cs (c :: s) ↔ c ∈ cs := by
  simp [BeginsIn]

/-- What is checked of all the characters holds of the first one. -/
theorem Text.BeginsIn.head {cs : List Char} {s : Text} (h : Text.BeginsIn cs s)
    {P : Char → Prop} [DecidablePred P] (hP : (cs.all fun c => decide (P c)) = true) :
    ∀ c ∈ s.head?, P c :=
  fun c hc => of_decide_eq_true (List.all_eq_true.mp hP c (h c hc))

namespace Form

/-- A row of blanks, which may be empty. -/
@[ext]
structure Blanks where
  text : Text
  blank : ∀ c ∈ text, isBlank c = true

/-- A row of blanks with at least one in it. -/
@[ext]
structure Gap extends Blanks where
  nonempty : text ≠ []

def Blanks.none : Blanks := ⟨[], by simp⟩

def Gap.space : Gap := ⟨⟨[' '], by simp; decide⟩, List.cons_ne_nil _ _⟩

/-- A mark in front of the name of an input. -/
inductive Mark where
  | exclamation | ampersand

def Mark.text : Mark → Text
  | exclamation => ['!']
  | ampersand => ['&']

structure Input where
  mark : Option Mark
  name : Token.Word .inputName
  key : Option (Token.Word .key)

namespace Input

def markText (x : Input) : Text := x.mark.elim [] Mark.text

def keyText (x : Input) : Text := x.key.elim [] fun key => ':' :: key.text

def text (x : Input) : Text := x.markText ++ (x.name.text ++ x.keyText)

def markNodes (x : Input) (start : Nat) : List Node :=
  x.mark.elim [] fun mark => [⟨.inputModifier, mark.text, [], start⟩]

def keyNodes (x : Input) (start : Nat) : List Node :=
  x.key.elim [] fun key => [⟨.selector, key.text, [], start + 1⟩]

def nodes (x : Input) (start : Nat) : List Node :=
  let nameStart := start + x.markText.length
  x.markNodes start ++ (⟨.inputName, x.name.text, [], nameStart⟩ ::
    x.keyNodes (nameStart + x.name.text.length))

def node (x : Input) (start : Nat) : Node := ⟨.input, x.text, x.nodes start, start⟩

end Input

structure Inputs where
  first : Input
  more : List Input

namespace Inputs

def all (x : Inputs) : List Input := x.first :: x.more

def moreText (xs : List Input) : Text := xs.flatMap fun x => '|' :: x.text

def text (x : Inputs) : Text := x.first.text ++ moreText x.more

def moreNodes : List Input → Nat → List Node
  | [], _ => []
  | x :: xs, start => x.node (start + 1) :: moreNodes xs (start + (x.text.length + 1))

def nodes (x : Inputs) (start : Nat) : List Node :=
  x.first.node start :: moreNodes x.more (start + x.first.text.length)

def node (x : Inputs) (start : Nat) : Node := ⟨.inputs, x.text, x.nodes start, start⟩

end Inputs

/-- An argument behind a gap, which has all the blanks. -/
structure Argument extends Token.Word .operatorArgument where
  tight : ∀ c ∈ text.head?, isBlank c = false

/-- What an operator tests, with its name or without. -/
inductive Test where
  | named (name : Token.Word .operatorName) (argument : Option (Gap × Argument))
  | implicit (argument : Token.Word .operatorArgument)
      (starts : ∀ c ∈ argument.text.head?, isImplicitStart c = true)

namespace Test

def argumentText (argument : Option (Gap × Argument)) : Text :=
  argument.elim [] fun (gap, argument) => gap.text ++ argument.text

def text : Test → Text
  | named name argument => name.text ++ argumentText argument
  | implicit argument _ => argument.text

def argumentNodes (argument : Option (Gap × Argument)) (start : Nat) : List Node :=
  argument.elim [] fun (gap, argument) =>
    [⟨.operatorArgument, argument.text, [], start + gap.text.length⟩]

def nodes : Test → Nat → List Node
  | named name argument, start =>
    ⟨.operatorName, name.text, [], start⟩ :: argumentNodes argument (start + name.text.length)
  | implicit argument _, start => [⟨.operatorArgument, argument.text, [], start⟩]

end Test

structure Operator where
  negated : Bool
  test : Test

namespace Operator

def markText (x : Operator) : Text := if x.negated then ['!'] else []

/-- What stands between the quotes. -/
def inner (x : Operator) : Text := x.markText ++ x.test.text

def text (x : Operator) : Text := '"' :: (x.markText ++ (x.test.text ++ ['"']))

def markNodes (x : Operator) (start : Nat) : List Node :=
  if x.negated then [⟨.operatorNegation, ['!'], [], start⟩] else []

def nodes (x : Operator) (start : Nat) : List Node :=
  x.markNodes (start + 1) ++ x.test.nodes (start + 1 + x.markText.length)

def node (x : Operator) (start : Nat) : Node := ⟨.operator, x.text, x.nodes start, start⟩

end Operator

inductive ActionArgument where
  | quoted (word : Token.Word .quotedArgument)
  | bare (word : Token.Word .bareArgument)

def ActionArgument.text : ActionArgument → Text
  | quoted word => word.text
  | bare word => word.text

structure Action where
  name : Token.Word .actionName
  argument : Option ActionArgument

namespace Action

def argumentText (x : Action) : Text := x.argument.elim [] fun argument => ':' :: argument.text

def text (x : Action) : Text := x.name.text ++ x.argumentText

def argumentNodes (x : Action) (start : Nat) : List Node :=
  x.argument.elim [] fun argument => [⟨.actionArgument, argument.text, [], start + 1⟩]

def nodes (x : Action) (start : Nat) : List Node :=
  ⟨.actionName, x.name.text, [], start⟩ :: x.argumentNodes (start + x.name.text.length)

def node (x : Action) (start : Nat) : Node := ⟨.action, x.text, x.nodes start, start⟩

end Action

/-- An action behind a comma, with the blanks on both sides of the comma. -/
structure NextAction where
  before : Blanks
  after : Blanks
  action : Action

def NextAction.text (x : NextAction) : Text :=
  x.before.text ++ (',' :: (x.after.text ++ x.action.text))

inductive Actions where
  | empty (blanks : Blanks)
  | listed (opening : Blanks) (first : Action) (more : List NextAction) (closing : Blanks)

namespace Actions

def all : Actions → List Action
  | empty _ => []
  | listed _ first more _ => first :: more.map NextAction.action

def moreText (xs : List NextAction) : Text := xs.flatMap NextAction.text

def text : Actions → Text
  | empty blanks => '"' :: (blanks.text ++ ['"'])
  | listed opening first more closing =>
    '"' :: (opening.text ++ ((first.text ++ moreText more) ++ (closing.text ++ ['"'])))

def moreNodes : List NextAction → Nat → List Node
  | [], _ => []
  | x :: xs, start =>
    x.action.node (start + x.before.text.length + 1 + x.after.text.length) ::
      moreNodes xs (start + x.text.length)

def nodes : Actions → Nat → List Node
  | empty _, _ => []
  | listed opening first more _, start =>
    first.node (start + 1 + opening.text.length) ::
      moreNodes more (start + 1 + opening.text.length + first.text.length)

def node (x : Actions) (start : Nat) : Node := ⟨.actions, x.text, x.nodes start, start⟩

end Actions

structure Rule where
  lead : Blanks
  gap : Gap
  inputs : Inputs
  operatorGap : Gap
  operator : Operator
  actionsGap : Gap
  actions : Actions
  trail : Blanks

namespace Rule

def text (x : Rule) : Text :=
  x.lead.text ++ (Grammar.directiveWord.toList ++ (x.gap.text ++ (x.inputs.text ++
    (x.operatorGap.text ++ (x.operator.text ++ (x.actionsGap.text ++
      (x.actions.text ++ x.trail.text)))))))

def inputsStart (x : Rule) (start : Nat) : Nat :=
  start + x.lead.text.length + Grammar.directiveWord.toList.length + x.gap.text.length

def operatorStart (x : Rule) (start : Nat) : Nat :=
  x.inputsStart start + x.inputs.text.length + x.operatorGap.text.length

def actionsStart (x : Rule) (start : Nat) : Nat :=
  x.operatorStart start + x.operator.text.length + x.actionsGap.text.length

def nodes (x : Rule) (start : Nat) : List Node :=
  [x.inputs.node (x.inputsStart start), x.operator.node (x.operatorStart start),
    x.actions.node (x.actionsStart start)]

def node (x : Rule) (start : Nat) : Node := ⟨.secRule, x.text, x.nodes start, start⟩

end Rule

end Form

end WafRules
