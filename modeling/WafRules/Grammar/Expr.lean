import WafRules.Grammar.Token
import WafRules.Tree.Node

/-!
# Grammar expressions

A grammar expression says how a beginning of a text is taken. Choice is ordered, and
a repetition takes as much as it can and gives nothing back. No expression refers to
itself, so the rules of a grammar stand inside each other and running an expression
is structural.

A run answers what was taken, what is left and the nodes of the rules that have a
kind; it fails without saying why. The main statement of this module is that the two
parts of the answer make up the text, `taken_append_rest`.
-/

namespace WafRules

/-- The name of a rule. Only some rules make nodes. -/
inductive RuleName where
  | node (kind : NodeKind)
  | blank | operatorBody | namedOperator | implicitOperator | actionList
  deriving DecidableEq

def RuleName.spelling : RuleName → String
  | node kind => kind.spelling
  | blank => "ws"
  | operatorBody => "operator_body"
  | namedOperator => "named_operator"
  | implicitOperator => "implicit_operator"
  | actionList => "action_list"

inductive Expr where
  /-- Exactly this word. -/
  | literal (word : Text)
  /-- The longest word of a class. -/
  | token (t : Token)
  /-- One after the other. -/
  | seq (first second : Expr)
  /-- The first, or the second where the first fails. -/
  | either (first second : Expr)
  /-- Takes nothing, and asks that the expression would be taken here. -/
  | ahead (e : Expr)
  /-- Once or not at all. -/
  | optional (e : Expr)
  /-- As often as possible, or not at all. -/
  | many (e : Expr)
  /-- As often as possible, and at least once. -/
  | manyOne (e : Expr)
  /-- A rule of the grammar with its right-hand side. -/
  | rule (name : RuleName) (e : Expr)

/-- What an expression has taken from a text: the nodes made, the beginning they stand
in and what is left behind it. -/
structure Match where
  nodes : List Node
  taken : Text
  rest : Text

namespace Match

/-- Nothing is taken. -/
def nothing (s : Text) : Match := ⟨[], [], s⟩

/-- A match and the match of what it left. -/
def append (m n : Match) : Match := ⟨m.nodes ++ n.nodes, m.taken ++ n.taken, n.rest⟩

/-- The match of a rule. A rule with a kind puts one node in place of the nodes below. -/
def enclose (start : Nat) (name : RuleName) (m : Match) : Match :=
  match name with
  | .node kind => { m with nodes := [⟨kind, m.taken, m.nodes, start⟩] }
  | _ => m

/-- Repeats a step until it fails, takes nothing or meets the end of the text. Every
step that counts takes at least one character, so a text is fuel enough for itself. -/
def repeated (step : Nat → Text → Option Match) : Text → Nat → Text → Match
  | [], _, s => nothing s
  | _ :: fuel, start, s =>
    if s.isEmpty then nothing s
    else
      match step start s with
      | none => nothing s
      | some m =>
        if m.taken.isEmpty then nothing s
        else m.append (repeated step fuel (start + m.taken.length) m.rest)

end Match

/-- Runs an expression at the beginning of a text that starts at the given offset. At
the end of the text an optional or repeated expression is not even tried. -/
def Expr.run : Expr → Nat → Text → Option Match
  | .literal word, _, s =>
    if word.isPrefixOf s then some ⟨[], word, s.drop word.length⟩ else none
  | .token t, _, s => (t.scan s).map fun (w, r) => ⟨[], w, r⟩
  | .seq e f, start, s =>
    (e.run start s).bind fun m =>
      (f.run (start + m.taken.length) m.rest).map m.append
  | .either e f, start, s => (e.run start s).or (f.run start s)
  | .ahead e, start, s => (e.run start s).map fun _ => .nothing s
  | .optional e, start, s =>
    if s.isEmpty then some (.nothing s) else some ((e.run start s).getD (.nothing s))
  | .many e, start, s => some (.repeated e.run s start s)
  | .manyOne e, start, s =>
    if s.isEmpty then none
    else
      (e.run start s).map fun m =>
        m.append (.repeated e.run m.rest (start + m.taken.length) m.rest)
  | .rule name e, start, s => (e.run start s).map (Match.enclose start name)

namespace Match

@[simp] theorem taken_enclose (start : Nat) (name : RuleName) (m : Match) :
    (m.enclose start name).taken = m.taken := by
  cases name <;> rfl

@[simp] theorem rest_enclose (start : Nat) (name : RuleName) (m : Match) :
    (m.enclose start name).rest = m.rest := by
  cases name <;> rfl

theorem taken_append_rest_repeated {step : Nat → Text → Option Match}
    (h : ∀ start s m, step start s = some m → m.taken ++ m.rest = s)
    (fuel : Text) (start : Nat) (s : Text) :
    (repeated step fuel start s).taken ++ (repeated step fuel start s).rest = s := by
  induction fuel generalizing start s with
  | nil => rfl
  | cons _ fuel ih =>
    unfold repeated
    split
    · rfl
    · split
      · rfl
      · rename_i m hm
        split
        · rfl
        · simp only [append, List.append_assoc, ih, h start s m hm]

end Match

/-- A run splits the text. -/
theorem Expr.taken_append_rest {e : Expr} {start : Nat} {s : Text} {m : Match}
    (h : e.run start s = some m) : m.taken ++ m.rest = s := by
  induction e generalizing start s m with
  | literal word =>
    simp only [run] at h
    split at h
    · rename_i hw
      cases h
      exact List.prefix_iff_eq_append.mp (List.isPrefixOf_iff_prefix.mp hw)
    · contradiction
  | token t =>
    obtain ⟨⟨w, r⟩, hr, rfl⟩ := Option.map_eq_some_iff.mp h
    exact Token.append_of_scan_eq_some hr
  | seq e f ihe ihf =>
    obtain ⟨m₁, h₁, h₂⟩ := Option.bind_eq_some_iff.mp h
    obtain ⟨m₂, h₃, rfl⟩ := Option.map_eq_some_iff.mp h₂
    rw [← ihe h₁, ← ihf h₃]
    simp [Match.append]
  | either e f ihe ihf =>
    rcases Option.or_eq_some_iff.mp h with h | ⟨-, h⟩
    · exact ihe h
    · exact ihf h
  | ahead e =>
    obtain ⟨_, _, rfl⟩ := Option.map_eq_some_iff.mp h
    rfl
  | optional e ih =>
    simp only [run] at h
    split at h
    · cases h; rfl
    · cases he : e.run start s with
      | none => rw [he] at h; cases h; rfl
      | some m' => rw [he] at h; cases h; exact ih he
  | many e ih =>
    cases h
    exact Match.taken_append_rest_repeated (fun _ _ _ => ih) _ _ _
  | manyOne e ih =>
    simp only [run] at h
    split at h
    · contradiction
    · obtain ⟨m₁, h₁, rfl⟩ := Option.map_eq_some_iff.mp h
      rw [← ih h₁]
      simp only [Match.append, List.append_assoc,
        Match.taken_append_rest_repeated (fun _ _ _ => ih)]
  | rule name e ih =>
    obtain ⟨m', h', rfl⟩ := Option.map_eq_some_iff.mp h
    simpa using ih h'

end WafRules
