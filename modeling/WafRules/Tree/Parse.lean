import WafRules.Grammar.Failure
import WafRules.Grammar.Rules

/-!
# Reading trees

A text is read by the production of the wanted kind, which has to take all of it. A
text that is read has one tree, whose root is of that kind and stands for the whole
text. A text is rejected either because the rule does not match, and the furthest failure
is blamed, or because it matches only a beginning of the text. In both cases the text is
cut at the place that the message points to, and is not changed by that:
`text_of_parse_eq_error`.
-/

namespace WafRules

/-- How a text fails to be what a rule describes. -/
inductive Rejection where
  | mismatch (culprit : Culprit)
  | leftover
  deriving DecidableEq

/-- A rejected text, cut at the place of the error, and the rule it was read by. -/
structure SyntaxError where
  kind : NodeKind
  before : Text
  after : Text
  rejection : Rejection
  deriving DecidableEq

def Culprit.describe : Culprit → String
  | rule name => s!"'{name.spelling}'"
  | literal word => s!"<Literal {word.quoted}>"

namespace SyntaxError

def text (e : SyntaxError) : Text := e.before ++ e.after

/-- What follows the place of the error, and where that is. -/
def place (e : SyntaxError) : String :=
  let shown := String.ofList e.after.excerpt
  s!"'{shown}' (line {e.before.endLine}, column {e.before.endColumn})."

/-- What is wrong, without the text. -/
def sentence (e : SyntaxError) : String :=
  match e.rejection with
  | .mismatch culprit => s!"Rule {culprit.describe} didn't match at {e.place}"
  | .leftover =>
    s!"Rule '{e.kind.spelling}' matched in its entirety, but it didn't consume all the " ++
      s!"text. The non-matching portion of the text begins with {e.place}"

def message (e : SyntaxError) : String :=
  s!"invalid syntax in {e.text.quoted}: {e.sentence}"

end SyntaxError

/-- The error of a text that the production does not match. -/
def SyntaxError.ofFailure (kind : NodeKind) (s : Text) (f : Failure) : SyntaxError where
  kind := kind
  before := s.take (s.length - f.rest.length)
  after := s.drop (s.length - f.rest.length)
  rejection := .mismatch f.culprit

/-- Reads a text as a node of the kind. -/
def Node.parse (kind : NodeKind) (s : Text) : Except SyntaxError Node :=
  let body := (Grammar.production kind).body
  match body.run 0 s with
  | none => .error (.ofFailure kind s (.ofRule (.node kind) s (body.blame s none)))
  | some m =>
    if m.rest.isEmpty then .ok ⟨kind, m.taken, m.nodes, 0⟩
    else .error ⟨kind, m.taken, m.rest, .leftover⟩

theorem Node.kind_of_parse_eq_ok {kind : NodeKind} {s : Text} {node : Node}
    (h : Node.parse kind s = .ok node) : node.kind = kind := by
  simp only [Node.parse] at h
  split at h
  · contradiction
  · split at h
    · cases h; rfl
    · contradiction

theorem Node.text_of_parse_eq_ok {kind : NodeKind} {s : Text} {node : Node}
    (h : Node.parse kind s = .ok node) : node.text = s := by
  simp only [Node.parse] at h
  split at h
  · contradiction
  · rename_i m hm
    split at h
    · rename_i he
      have whole := Expr.taken_append_rest hm
      rw [List.isEmpty_iff.mp he, List.append_nil] at whole
      cases h
      exact whole
    · contradiction

theorem Node.text_of_parse_eq_error {kind : NodeKind} {s : Text} {e : SyntaxError}
    (h : Node.parse kind s = .error e) : e.text = s := by
  simp only [Node.parse] at h
  split at h
  · cases h
    exact List.take_append_drop _ _
  · rename_i m hm
    split at h
    · contradiction
    · cases h
      exact Expr.taken_append_rest hm

theorem Node.kind_of_parse_eq_error {kind : NodeKind} {s : Text} {e : SyntaxError}
    (h : Node.parse kind s = .error e) : e.kind = kind := by
  simp only [Node.parse] at h
  split at h
  · cases h; rfl
  · split at h
    · contradiction
    · cases h; rfl

end WafRules
