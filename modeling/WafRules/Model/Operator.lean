import WafRules.Model.Basic
import WafRules.Tree.Cursor

/-!
# Operators

An operator is the test of a rule, between double quotes: a name behind an at sign and
an argument, negated by an exclamation mark. An operator without a name is a regular
expression, and is written back with its name. The argument keeps its escapes.
-/

namespace WafRules

/-- The name of an operator. -/
inductive OperatorName where
  | beginsWith | contains | containsWord | detectSqli | detectXss | endsWith | eq
  | fuzzyHash | ge | geoLookup | gsbLookup | gt | inspectFile | ipMatch
  | ipMatchFromFile | le | lt | noMatch | pm | pmFromFile | rbl | rsub | rx | streq
  | strmatch | unconditionalMatch | validateByteRange | validateDtd | validateHash
  | validateSchema | validateUrlEncoding | validateUtf8Encoding | verifyCc | verifyCpf
  | verifySsn | within
  deriving DecidableEq

namespace OperatorName

def all : List OperatorName :=
  [.beginsWith, .contains, .containsWord, .detectSqli, .detectXss, .endsWith, .eq,
   .fuzzyHash, .ge, .geoLookup, .gsbLookup, .gt, .inspectFile, .ipMatch,
   .ipMatchFromFile, .le, .lt, .noMatch, .pm, .pmFromFile, .rbl, .rsub, .rx, .streq,
   .strmatch, .unconditionalMatch, .validateByteRange, .validateDtd, .validateHash,
   .validateSchema, .validateUrlEncoding, .validateUtf8Encoding, .verifyCc, .verifyCpf,
   .verifySsn, .within]

def spelling : OperatorName → String
  | .beginsWith => "beginsWith"
  | .contains => "contains"
  | .containsWord => "containsWord"
  | .detectSqli => "detectSQLi"
  | .detectXss => "detectXSS"
  | .endsWith => "endsWith"
  | .eq => "eq"
  | .fuzzyHash => "fuzzyHash"
  | .ge => "ge"
  | .geoLookup => "geoLookup"
  | .gsbLookup => "gsbLookup"
  | .gt => "gt"
  | .inspectFile => "inspectFile"
  | .ipMatch => "ipMatch"
  | .ipMatchFromFile => "ipMatchFromFile"
  | .le => "le"
  | .lt => "lt"
  | .noMatch => "noMatch"
  | .pm => "pm"
  | .pmFromFile => "pmFromFile"
  | .rbl => "rbl"
  | .rsub => "rsub"
  | .rx => "rx"
  | .streq => "streq"
  | .strmatch => "strmatch"
  | .unconditionalMatch => "unconditionalMatch"
  | .validateByteRange => "validateByteRange"
  | .validateDtd => "validateDTD"
  | .validateHash => "validateHash"
  | .validateSchema => "validateSchema"
  | .validateUrlEncoding => "validateUrlEncoding"
  | .validateUtf8Encoding => "validateUtf8Encoding"
  | .verifyCc => "verifyCC"
  | .verifyCpf => "verifyCPF"
  | .verifySsn => "verifySSN"
  | .within => "within"

instance : Vocabulary OperatorName where
  all := all
  spelling := spelling
  mem_all a := by cases a <;> decide
  spellings_nodup := by decide

end OperatorName

structure Operator where
  name : OperatorName
  argument : Text := []
  negated : Bool := false
  deriving DecidableEq

namespace Operator

/-- The operator of an optional name node. The first character of its text, which the
grammar makes the at sign, is not part of the name. -/
def nameOfNode (name : Option Node) (text : Text) : Except Fault OperatorName :=
  match name with
  | none => .ok .rx
  | some node =>
    match Vocabulary.ofText? (node.text.drop 1) with
    | none => .error (.unknownOperator (node.text.drop 1) text)
    | some name => .ok name

def ofNode (node : Node) : Except Fault Operator := do
  node.expect .operator
  let (negation, cursor) := node.cursor.takeIf .operatorNegation
  let (nameNode, cursor) := cursor.takeIf .operatorName
  let name ← nameOfNode nameNode node.text
  let (argument, _) := cursor.takeIf .operatorArgument
  return ⟨name, argument.elim [] Node.text, negation.isSome⟩

def render (o : Operator) : Text :=
  '"' :: (if o.negated then ['!'] else []) ++ '@' :: Vocabulary.text o.name ++
    (if o.argument.isEmpty then [] else ' ' :: o.argument) ++ ['"']

instance : Model Operator where
  kind := .operator
  ofNode node := (ofNode node).mapError .fault
  render := render

end Operator

end WafRules
