import WafRules.Journal

/-!
# Blocks of rules

A block of rule text is cut into directives, one for each line that is neither empty
nor a comment. A line that ends in a backslash goes on with the next line, whatever
that one holds. Lines are trimmed before anything else is decided about them: first
the carriage returns at the end, then blanks at both ends.

A block is read directive by directive, in order. Reading it as rules stops at the
first directive that cannot be read; checking it goes on and reports them all. Both
leave in the log what the readings leave, and checking adds an event for each directive
that is invalid. The written form of a block has one rule on each line.

The directives of a block do not depend on each other, so several workers may read them
together. One worker goes through them in order and stops at the first that cannot be
read. Several workers read all of them, in whatever order, but what they found is taken
in the order of the directives, so there too the first failure in the block counts. Only
the results of several workers are described here: what they leave in the log depends on
which of them is done first.
-/

namespace WafRules

/-- The text of a directive, put together from its lines, and the number of the first
of them. -/
structure Directive where
  line : Nat
  text : Text
  deriving DecidableEq

namespace Directive

/-- A line without its carriage returns and the blanks around it. -/
def trimLine (s : Text) : Text := (s.trimEnd (· == '\r')).trim isBlank

/-- Whether a trimmed line stands for nothing outside of a directive. -/
def isSkipped (s : Text) : Bool := s.isEmpty || s.head? == some '#'

/-- What is joined of a trimmed line that goes on with the next one. -/
def continued? (s : Text) : Option Text :=
  if s.getLast? = some '\\' then some s.dropLast else none

/-- The directives of the lines from the given number on. The directive that is still
going on may have an empty text, and the lines may end before it does. -/
def ofLines : Nat → Option Directive → List Text → List Directive
  | _, none, [] => []
  | _, some d, [] => [d]
  | n, pending, line :: lines =>
    let s := trimLine line
    if pending.isNone && isSkipped s then ofLines (n + 1) none lines
    else
      let d := pending.getD ⟨n, []⟩
      match continued? s with
      | some piece => ofLines (n + 1) (some { d with text := d.text ++ piece }) lines
      | none => { d with text := d.text ++ s } :: ofLines (n + 1) none lines

end Directive

/-- The directives of a block, in order. -/
def directives (s : Text) : List Directive := Directive.ofLines 1 none (Text.lines s)

/-- A comment line inside a directive belongs to it, and a directive that the end of the
block cuts short is still one, even if nothing is in it. -/
example : directives "# a\\\nb \\\n # c\n\\".toList =
    [⟨2, "b # c".toList⟩, ⟨4, []⟩] := by decide +kernel

/-- A directive that cannot be read, and why. -/
structure DirectiveError where
  directive : Directive
  error : ReadError
  deriving DecidableEq

def DirectiveError.message (e : DirectiveError) : String :=
  s!"line {e.directive.line}: {e.error.message}"

/-- What checking reports about an invalid directive. -/
structure Diagnostic where
  line : Nat
  text : Text
  message : String
  deriving DecidableEq

namespace Directive

/-- Reads a directive as a rule. -/
def read (d : Directive) : Logged (Except DirectiveError Rule) := do
  let outcome ← Model.parseLogged d.text
  return outcome.mapError (DirectiveError.mk d)

/-- Reports a directive if it cannot be read as a rule. -/
def check (d : Directive) : Logged (Option Diagnostic) := do
  match ← Model.parseLogged (α := Rule) d.text with
  | .ok _ => return none
  | .error e =>
    Logged.log (.invalidDirective d.line e)
    return some ⟨d.line, d.text, e.message⟩

/-- Reads directives up to the first that cannot be read. -/
def readAll : List Directive → Logged (Except DirectiveError (List Rule))
  | [] => return .ok []
  | d :: ds => do
    match ← d.read with
    | .error e => return .error e
    | .ok rule => return (← readAll ds).map (rule :: ·)

/-- Checks directives to the end. -/
def checkAll : List Directive → Logged (List Diagnostic)
  | [] => return []
  | d :: ds => do
    let found ← d.check
    return found.toList ++ (← checkAll ds)

end Directive

/-- The rules of a block. -/
def parseBlock (s : Text) : Logged (Except DirectiveError (List Rule)) :=
  Directive.readAll (directives s)

/-- The diagnostics of a block, in order; there are none if it can be read. -/
def checkBlock (s : Text) : Logged (List Diagnostic) := Directive.checkAll (directives s)

/-- The rules of a list, each on a line of its own. -/
def renderBlock (rules : List Rule) : Text := rules.flatMap fun r => r.render ++ ['\n']

/-- The rules of a block, with the given number of workers. -/
def parseBlockBy (workers : Int) (s : Text) : Except DirectiveError (List Rule) :=
  if workers ≤ 1 then (parseBlock s).value
  else ((directives s).map fun d => d.read.value).mapM id

/-- The diagnostics of a block, with the given number of workers. -/
def checkBlockBy (workers : Int) (s : Text) : List Diagnostic :=
  if workers ≤ 1 then (checkBlock s).value
  else ((directives s).map fun d => d.check.value).filterMap id

end WafRules
