import WafRules.Tree.Parse

/-!
# Models

A model is a type of values that are read from the nodes of one kind and written as
text. Reading a text means reading its tree and then the value from the tree, so it
can fail in two ways: the grammar rejects the text, or the tree has a fault. A rule
says beside the fault which of its parts has it.
-/

namespace WafRules

/-- The parts of a rule. -/
inductive Part where
  | inputs | operator | actions
  deriving DecidableEq

def Part.spelling : Part → String
  | inputs => "inputs"
  | operator => "operator"
  | actions => "actions"

/-- Why a text, or a tree, does not stand for a value. -/
inductive ReadError where
  | rejected (e : SyntaxError)
  | fault (e : Fault)
  /-- A part of a rule has a fault. -/
  | part (part : Part) (e : Fault)
  deriving DecidableEq

def ReadError.message : ReadError → String
  | rejected e => e.message
  | fault e => e.message
  | part p e => s!"invalid {p.spelling}: {e.message}"

class Model (α : Type) where
  /-- The kind of the nodes that stand for the values. -/
  kind : NodeKind
  ofNode : Node → Except ReadError α
  /-- The canonical text of a value. -/
  render : α → Text

namespace Model

variable {α : Type} [Model α]

/-- Reads a value from a text that stands for it as a whole. -/
def parse (s : Text) : Except ReadError α :=
  match Node.parse (kind α) s with
  | .error e => .error (.rejected e)
  | .ok node => ofNode node

/-- Whether the canonical text of a value is read as that value. -/
def rereads [DecidableEq α] (a : α) : Except ReadError Bool :=
  (parse (render a)).map fun b => decide (b = a)

end Model

end WafRules
