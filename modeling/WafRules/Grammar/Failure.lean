import WafRules.Grammar.Expr

/-!
# Furthest failures

Which failure a rejected text is blamed on. Running an expression tries many things
that fail, also where it succeeds in the end. One failure is kept: a named rule
replaces the one on record unless it failed earlier in the text, and a literal is
recorded only while nothing is. An expression is blamed before the rule it stands in.

The record never decides what is taken: `Expr.run` does not know it. A place in the
text is given by what was left there, so less is left at a later place.
-/

namespace WafRules

/-- What is said to have failed. -/
inductive Culprit where
  | rule (name : RuleName)
  | literal (word : Text)
  deriving DecidableEq

/-- A failure, and what was left of the text where it happened. -/
structure Failure where
  culprit : Culprit
  rest : Text
  deriving DecidableEq

/-- The record after a named rule has failed. -/
def Failure.ofRule (name : RuleName) (s : Text) : Option Failure → Failure
  | none => ⟨.rule name, s⟩
  | some f => if s.length ≤ f.rest.length then ⟨.rule name, s⟩ else f

/-- The record after a literal has failed. -/
def Failure.ofLiteral (word : Text) (s : Text) : Option Failure → Failure
  | none => ⟨.literal word, s⟩
  | some f => f

/-- The record after a repetition, which tries its item as often as it takes something
and once more, but not at the end of the text. A text is fuel enough for itself. -/
def Failure.ofRepeated (step : Text → Option Match)
    (blame : Text → Option Failure → Option Failure) :
    Text → Text → Option Failure → Option Failure
  | [], _, record => record
  | _ :: fuel, s, record =>
    if s.isEmpty then record
    else
      match step s with
      | none => blame s record
      | some m =>
        if m.taken.isEmpty then blame s record
        else ofRepeated step blame fuel m.rest (blame s record)

/-- The record after an expression has been tried at the beginning of a text. -/
def Expr.blame : Expr → Text → Option Failure → Option Failure
  | .literal word, s, record =>
    if word.isPrefixOf s then record else some (Failure.ofLiteral word s record)
  | .token _, _, record => record
  | .seq e f, s, record =>
    match e.run 0 s with
    | none => e.blame s record
    | some m => f.blame m.rest (e.blame s record)
  | .either e f, s, record =>
    match e.run 0 s with
    | none => f.blame s (e.blame s record)
    | some _ => e.blame s record
  | .ahead e, s, record => e.blame s record
  | .optional e, s, record => if s.isEmpty then record else e.blame s record
  | .many e, s, record => Failure.ofRepeated (e.run 0) e.blame s s record
  | .manyOne e, s, record => Failure.ofRepeated (e.run 0) e.blame s s record
  | .rule name e, s, record =>
    match e.run 0 s with
    | none => some (Failure.ofRule name s (e.blame s record))
    | some _ => e.blame s record

/-- A failed rule is recorded at its own place, or what was on record stays there. -/
theorem Failure.rest_ofRule (name : RuleName) (s : Text) (record : Option Failure) :
    (ofRule name s record).rest = s ∨ record = some (ofRule name s record) := by
  cases record with
  | none => exact .inl rfl
  | some f =>
    simp only [ofRule]
    split
    · exact .inl rfl
    · exact .inr rfl

/-- So is a literal. -/
theorem Failure.rest_ofLiteral (word s : Text) (record : Option Failure) :
    (ofLiteral word s record).rest = s ∨ record = some (ofLiteral word s record) := by
  cases record with
  | none => exact .inl rfl
  | some f => exact .inr rfl

end WafRules
