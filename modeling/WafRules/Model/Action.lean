import WafRules.Model.Basic
import WafRules.Tree.Cursor

/-!
# Actions

What a rule does when it matches: disruptive actions, flow, metadata and data. An action
is a name, with an argument behind a colon if it has one. The argument is
kept without its quotes. It is written back bare where it can be, and between single
quotes otherwise. The actions of a rule stand between double quotes, with commas
between them, and are done from left to right.
-/

namespace WafRules

/-- The name of an action. -/
inductive ActionName where
  | accuracy | allow | append | auditlog | block | capture | chain | ctl | deny
  | deprecatevar | drop | exec | expirevar | id | initcol | log | logdata | maturity
  | msg | multiMatch | noauditlog | nolog | pass | pause | phase | prepend | proxy
  | redirect | rev | sanitiseArg | sanitiseMatched | sanitiseMatchedBytes
  | sanitiseRequestHeader | sanitiseResponseHeader | setenv | setrsc | setsid | setuid
  | setvar | severity | skip | skipAfter | status | t | tag | ver | xmlns
  deriving DecidableEq

namespace ActionName

def all : List ActionName :=
  [.accuracy, .allow, .append, .auditlog, .block, .capture, .chain, .ctl, .deny,
   .deprecatevar, .drop, .exec, .expirevar, .id, .initcol, .log, .logdata, .maturity,
   .msg, .multiMatch, .noauditlog, .nolog, .pass, .pause, .phase, .prepend, .proxy,
   .redirect, .rev, .sanitiseArg, .sanitiseMatched, .sanitiseMatchedBytes,
   .sanitiseRequestHeader, .sanitiseResponseHeader, .setenv, .setrsc, .setsid, .setuid,
   .setvar, .severity, .skip, .skipAfter, .status, .t, .tag, .ver, .xmlns]

def spelling : ActionName → String
  | .accuracy => "accuracy"
  | .allow => "allow"
  | .append => "append"
  | .auditlog => "auditlog"
  | .block => "block"
  | .capture => "capture"
  | .chain => "chain"
  | .ctl => "ctl"
  | .deny => "deny"
  | .deprecatevar => "deprecatevar"
  | .drop => "drop"
  | .exec => "exec"
  | .expirevar => "expirevar"
  | .id => "id"
  | .initcol => "initcol"
  | .log => "log"
  | .logdata => "logdata"
  | .maturity => "maturity"
  | .msg => "msg"
  | .multiMatch => "multiMatch"
  | .noauditlog => "noauditlog"
  | .nolog => "nolog"
  | .pass => "pass"
  | .pause => "pause"
  | .phase => "phase"
  | .prepend => "prepend"
  | .proxy => "proxy"
  | .redirect => "redirect"
  | .rev => "rev"
  | .sanitiseArg => "sanitiseArg"
  | .sanitiseMatched => "sanitiseMatched"
  | .sanitiseMatchedBytes => "sanitiseMatchedBytes"
  | .sanitiseRequestHeader => "sanitiseRequestHeader"
  | .sanitiseResponseHeader => "sanitiseResponseHeader"
  | .setenv => "setenv"
  | .setrsc => "setrsc"
  | .setsid => "setsid"
  | .setuid => "setuid"
  | .setvar => "setvar"
  | .severity => "severity"
  | .skip => "skip"
  | .skipAfter => "skipAfter"
  | .status => "status"
  | .t => "t"
  | .tag => "tag"
  | .ver => "ver"
  | .xmlns => "xmlns"

instance : Vocabulary ActionName where
  all := all
  spelling := spelling
  mem_all a := by cases a <;> decide
  spellings_nodup := by decide

end ActionName

structure Action where
  name : ActionName
  argument : Option Text := none
  deriving DecidableEq

/-- Whether a character may stand in an argument that is written without quotes. -/
def isPlainChar (c : Char) : Bool :=
  c != ',' && c != '\'' && c != '"' && !isSpaceOrSeparator c

namespace Action

/-- An argument without its quotes: one that begins with a single quote loses its first
and its last character. -/
def unquote (s : Text) : Text :=
  if s.head? = some '\'' then s.tail.dropLast else s

def quote (s : Text) : Text :=
  if !s.isEmpty && s.all isPlainChar then s else '\'' :: s ++ ['\'']

def ofNode (node : Node) : Except Fault Action := do
  node.expect .action
  let (nameNode, cursor) ← node.cursor.take (some .actionName)
  match Vocabulary.ofText? nameNode.text with
  | none => .error (.unknownAction nameNode.text node.text)
  | some name =>
    let (argument, _) := cursor.takeIf .actionArgument
    return ⟨name, argument.map fun child => unquote child.text⟩

def render (a : Action) : Text :=
  Vocabulary.text a.name ++ a.argument.elim [] fun argument => ':' :: quote argument

instance : Model Action where
  kind := .action
  ofNode node := (ofNode node).mapError .fault
  render := render

end Action

namespace Actions

def ofNode (node : Node) : Except Fault (List Action) := do
  node.expect .actions
  node.children.mapM Action.ofNode

def render (actions : List Action) : Text :=
  '"' :: [','].intercalate (actions.map Action.render) ++ ['"']

/-- The first action with the name. -/
def get? (name : ActionName) (actions : List Action) : Option Action :=
  actions.find? fun a => a.name = name

instance : Model (List Action) where
  kind := .actions
  ofNode node := (ofNode node).mapError .fault
  render := render

end Actions

end WafRules
