import WafRules.Model.Rule

/-!
# Journal

What an operation leaves in the log. A record is an event with its cause; where it is
logged, how loudly and in which words is decided here. An operation that logs answers
its value together with its records, oldest first, so that nothing is written on the
way and the records are part of what is known about the operation.

A failure leaves its record where it is noticed: in the grammar, or where a part of a rule
is read. A reading ends with its first failure, so what it leaves is known from its outcome:
`parseLogged` looks at nothing else, and `Rule.notingParse` reads step by step.
-/

namespace WafRules

/-- Something worth a record. -/
inductive Event where
  | rejected (e : SyntaxError)
  | partFailed (part : Part) (e : Fault)
  | invalidDirective (line : Nat) (e : ReadError)
  | invalidWorkers (value : Text)
  deriving DecidableEq

/-- How loud a record is, and how loud it must be to pass a logger. -/
inductive Severity where
  | critical | error | warning | info | debug | notSet
  deriving DecidableEq

def Severity.name : Severity → String
  | critical => "CRITICAL"
  | error => "ERROR"
  | warning => "WARNING"
  | info => "INFO"
  | debug => "DEBUG"
  | notSet => "NOTSET"

def Severity.rank : Severity → Nat
  | critical => 50
  | error => 40
  | warning => 30
  | info => 20
  | debug => 10
  | notSet => 0

/-- The logger that all others here stand under. -/
def rootLogger : String := "secrules"

namespace Event

/-- The logger that an event belongs to. -/
def logger : Event → String
  | rejected _ => s!"{rootLogger}.grammar"
  | partFailed _ _ => s!"{rootLogger}.rule"
  | invalidDirective _ _ => s!"{rootLogger}.ruleset"
  | invalidWorkers _ => s!"{rootLogger}.ruleset"

def severity : Event → Severity
  | invalidWorkers _ => .warning
  | _ => .debug

def message : Event → String
  | rejected e => s!"Grammar rejected {e.kind.spelling} {e.text.quoted}: {e.sentence}"
  | partFailed part e => s!"SecRule {part.spelling} failed: {e.message}"
  | invalidDirective line e => s!"Invalid directive on line {line}: {e.message}"
  | invalidWorkers value => s!"Ignoring invalid SECRULES_MAX_WORKERS={value.quoted}"

end Event

/-- What is seen of an event in the log. -/
structure LogRecord where
  logger : String
  severity : Severity
  message : String
  deriving DecidableEq

def Event.record (e : Event) : LogRecord := ⟨e.logger, e.severity, e.message⟩

/-- A value and the events on the way to it, oldest first. -/
structure Logged (α : Type) where
  value : α
  events : List Event

namespace Logged

def pure {α : Type} (a : α) : Logged α := ⟨a, []⟩

def bind {α β : Type} (x : Logged α) (f : α → Logged β) : Logged β :=
  ⟨(f x.value).value, x.events ++ (f x.value).events⟩

instance : Monad Logged where
  pure := pure
  bind := bind

/-- Leaves one event. -/
def log (e : Event) : Logged Unit := ⟨(), [e]⟩

@[simp] theorem value_bind {α β : Type} (x : Logged α) (f : α → Logged β) :
    (x >>= f).value = (f x.value).value := rfl

@[simp] theorem events_bind {α β : Type} (x : Logged α) (f : α → Logged β) :
    (x >>= f).events = x.events ++ (f x.value).events := rfl

@[simp] theorem value_pure {α : Type} (a : α) : (Pure.pure a : Logged α).value = a := rfl

@[simp] theorem events_pure {α : Type} (a : α) : (Pure.pure a : Logged α).events = [] := rfl

end Logged

/-- What a failed reading leaves in the log. A fault of a node that stands alone, and
not for a part of a rule, leaves nothing. -/
def ReadError.events : ReadError → List Event
  | rejected e => [.rejected e]
  | fault _ => []
  | part p e => [.partFailed p e]

namespace Model

variable {α : Type} [Model α]

/-- The outcome of a reading with what it leaves in the log. -/
def logging {β : Type} : Except ReadError β → Logged (Except ReadError β)
  | .ok b => ⟨.ok b, []⟩
  | .error e => ⟨.error e, e.events⟩

def parseLogged (s : Text) : Logged (Except ReadError α) := logging (parse s)

end Model

/-- A reading that leaves records on the way and may end early. -/
abbrev Noting (α : Type) : Type := ExceptT ReadError Logged α

namespace Noting

/-- A step that leaves nothing. -/
def silently {α : Type} (x : Except ReadError α) : Noting α := ExceptT.mk ⟨x, []⟩

/-- A step that leaves an event where it fails. -/
def step {ε α : Type} (event : ε → Event) (wrap : ε → ReadError) (x : Except ε α) : Noting α :=
  match x with
  | .ok a => return a
  | .error e => do
    Logged.log (event e)
    throw (wrap e)

end Noting

/-- Reads the next child as a part of a rule, and notes where this fails. -/
def Cursor.notingPart {α : Type} (part : Part) (kind : NodeKind)
    (read : Node → Except Fault α) (cursor : Cursor) : Noting (α × Cursor) :=
  Noting.step (.partFailed part) (.part part) do
    let (child, cursor) ← cursor.take (some kind)
    return (← read child, cursor)

namespace Rule

def notingOfNode (node : Node) : Noting Rule := do
  Noting.silently ((node.expect .secRule).mapError .fault)
  let (inputs, cursor) ← node.cursor.notingPart .inputs .inputs Inputs.ofNode
  let (operator, cursor) ← cursor.notingPart .operator .operator Operator.ofNode
  let (actions, _) ← cursor.notingPart .actions .actions Actions.ofNode
  return ⟨inputs, operator, actions⟩

/-- Reads a text as a rule, with each record left where it is due. -/
def notingParse (s : Text) : Noting Rule := do
  let node ← Noting.step .rejected .rejected (Node.parse .secRule s)
  notingOfNode node

end Rule

end WafRules
