import WafRules.Tree.Node

/-!
# Cursors

A cursor hands out the children of a node in order, each at most once. An operation
that fails leaves the cursor where it was. The operations are also given as data, so
that a whole run on one cursor can be spoken of.
-/

namespace WafRules

/-- Refuses a node that is not of the wanted kind. -/
def Node.expect (kind : NodeKind) (node : Node) : Except Fault Unit :=
  if node.kind = kind then .ok () else .error (.unexpectedKind node.kind kind)

/-- A node and the number of its children that have been handed out. -/
structure Cursor where
  node : Node
  position : Nat := 0

/-- The cursor before the first child. -/
def Node.cursor (node : Node) : Cursor := ⟨node, 0⟩

namespace Cursor

/-- The next child, which stays where it is. -/
def peek (c : Cursor) : Option Node := c.node.children[c.position]?

/-- The cursor behind the next child. -/
def advance (c : Cursor) : Cursor := { c with position := c.position + 1 }

/-- Takes the next child, which has to exist and to be of the kind, if one is given. -/
def take (kind : Option NodeKind) (c : Cursor) : Except Fault (Node × Cursor) :=
  match c.peek with
  | none => .error (.missingChild kind c.node.text)
  | some child =>
    match kind with
    | none => .ok (child, c.advance)
    | some k => (child.expect k).map fun _ => (child, c.advance)

/-- Takes the next child if it exists and is of the kind. -/
def takeIf (kind : NodeKind) (c : Cursor) : Option Node × Cursor :=
  match c.peek with
  | some child => if child.kind = kind then (some child, c.advance) else (none, c)
  | none => (none, c)

/-- Takes all the children that are left. -/
def takeAll (c : Cursor) : List Node × Cursor :=
  (c.node.children.drop c.position, { c with position := c.node.children.length })

/-- An operation on a cursor. -/
inductive Op where
  | peek
  | take (kind : Option NodeKind)
  | takeIf (kind : NodeKind)
  | takeAll
  deriving DecidableEq

/-- What an operation answers. -/
inductive Answer where
  | node (found : Option Node)
  | nodes (found : List Node)
  | fault (e : Fault)

def step (c : Cursor) : Op → Answer × Cursor
  | .peek => (.node c.peek, c)
  | .take kind =>
    match c.take kind with
    | .ok (child, c') => (.node (some child), c')
    | .error e => (.fault e, c)
  | .takeIf kind => let (found, c') := c.takeIf kind; (.node found, c')
  | .takeAll => let (found, c') := c.takeAll; (.nodes found, c')

/-- The answers to a list of operations, and the cursor they leave. -/
def run (c : Cursor) : List Op → List Answer × Cursor
  | [] => ([], c)
  | op :: ops =>
    let (answer, c') := c.step op
    let (answers, c'') := c'.run ops
    (answer :: answers, c'')

variable {c c' : Cursor} {kind : NodeKind} {child : Node}

/-- The children that have not been handed out. -/
def remaining (c : Cursor) : List Node := c.node.children.drop c.position

theorem peek_eq_head? (c : Cursor) : c.peek = c.remaining.head? := by
  rw [peek, remaining, List.head?_drop]

theorem remaining_of_peek (h : c.peek = some child) :
    c.remaining = child :: c.advance.remaining := by
  obtain ⟨inside, rfl⟩ := List.getElem?_eq_some_iff.mp h
  exact List.drop_eq_getElem_cons inside

theorem take_of_none (absent : c.peek = none) (kind : Option NodeKind) :
    c.take kind = .error (.missingChild kind c.node.text) := by
  simp only [take, absent]

theorem take_any (there : c.peek = some child) : c.take none = .ok (child, c.advance) := by
  simp only [take, there]

theorem take_of_kind (there : c.peek = some child) (same : child.kind = kind) :
    c.take (some kind) = .ok (child, c.advance) := by
  simp only [take, there, Node.expect, if_pos same, Except.map]

theorem take_of_other (there : c.peek = some child) (other : child.kind ≠ kind) :
    c.take (some kind) = .error (.unexpectedKind child.kind kind) := by
  simp only [take, there, Node.expect, if_neg other, Except.map]

theorem takeIf_of_none (absent : c.peek = none) (kind : NodeKind) :
    c.takeIf kind = (none, c) := by
  simp only [takeIf, absent]

theorem takeIf_of_kind (there : c.peek = some child) (same : child.kind = kind) :
    c.takeIf kind = (some child, c.advance) := by
  simp only [takeIf, there, if_pos same]

theorem takeIf_of_other (there : c.peek = some child) (other : child.kind ≠ kind) :
    c.takeIf kind = (none, c) := by
  simp only [takeIf, there, if_neg other]

theorem of_take_eq_ok (h : c.take (some kind) = .ok (child, c')) :
    c.peek = some child ∧ child.kind = kind ∧ c' = c.advance := by
  unfold take at h
  split at h
  · contradiction
  · rename_i there
    simp only [Node.expect] at h
    split at h
    · rename_i same
      cases h
      exact ⟨there, same, rfl⟩
    · contradiction

/-- The next child is taken if it is of the kind. -/
theorem takeIf_fst (kind : NodeKind) (c : Cursor) :
    (c.takeIf kind).1 = c.peek.filter fun child => child.kind = kind := by
  unfold takeIf
  cases c.peek with
  | none => rfl
  | some child => by_cases same : child.kind = kind <;> simp [same, Option.filter]

/-- It is left where it is otherwise. -/
theorem remaining_eq_takeIf (kind : NodeKind) (c : Cursor) :
    c.remaining = (c.takeIf kind).1.toList ++ (c.takeIf kind).2.remaining := by
  unfold takeIf
  cases there : c.peek with
  | none => rfl
  | some child =>
    by_cases same : child.kind = kind
    · simpa [same] using remaining_of_peek there
    · simp [same]

end Cursor

end WafRules
