import WafRules.Tree.Cursor

/-!
# Runs on a cursor

One cursor serves a whole node, through operations that take children, that only look, and that
fail and are recovered from. `Serves` says once what each of them does, and `Produces` what they
all keep: the children handed out on the way from one cursor to another are the beginning of
those that were left. So every run hands out the first children of the node, in order and each
once, and the position counts them. A cursor behind the last child stays there.
-/

namespace WafRules

namespace Cursor

variable {c c' c'' : Cursor} {op : Op} {answer : Answer} {handed handed' : List Node}

/-- The cursor behind the last child. -/
def finish (c : Cursor) : Cursor := { c with position := c.node.children.length }

/-- What an operation answers on a cursor, and the cursor that it leaves. -/
inductive Serves (c : Cursor) : Op → Answer → Cursor → Prop
  | peek : c.Serves .peek (.node c.peek) c
  | missing {kind : Option NodeKind} (absent : c.peek = none) :
      c.Serves (.take kind) (.fault (.missingChild kind c.node.text)) c
  | unexpected {child : Node} {kind : NodeKind} (there : c.peek = some child)
      (other : child.kind ≠ kind) :
      c.Serves (.take (some kind)) (.fault (.unexpectedKind child.kind kind)) c
  | taken {child : Node} {kind : Option NodeKind} (there : c.peek = some child)
      (fits : ∀ k, kind = some k → child.kind = k) :
      c.Serves (.take kind) (.node (some child)) c.advance
  | passed {kind : NodeKind} (unfit : ∀ child, c.peek = some child → child.kind ≠ kind) :
      c.Serves (.takeIf kind) (.node none) c
  | fitted {child : Node} {kind : NodeKind} (there : c.peek = some child)
      (same : child.kind = kind) : c.Serves (.takeIf kind) (.node (some child)) c.advance
  | finished : c.Serves .takeAll (.nodes c.remaining) c.finish

/-- Every operation ends in one of these ways. -/
theorem exists_serves (c : Cursor) (op : Op) : ∃ answer c', c.Serves op answer c' := by
  cases op with
  | peek => exact ⟨_, _, .peek⟩
  | takeAll => exact ⟨_, _, .finished⟩
  | take kind =>
    cases there : c.peek with
    | none => exact ⟨_, _, .missing there⟩
    | some child =>
      cases kind with
      | none => exact ⟨_, _, .taken there fun k hk => nomatch hk⟩
      | some kind =>
        by_cases same : child.kind = kind
        · exact ⟨_, _, .taken there fun k hk => same.trans (Option.some.inj hk)⟩
        · exact ⟨_, _, .unexpected there same⟩
  | takeIf kind =>
    by_cases fit : ∃ child, c.peek = some child ∧ child.kind = kind
    · obtain ⟨child, there, same⟩ := fit
      exact ⟨_, _, .fitted there same⟩
    · exact ⟨_, _, .passed fun child there same => fit ⟨child, there, same⟩⟩

theorem Serves.step_eq (h : c.Serves op answer c') : c.step op = (answer, c') := by
  cases h with
  | peek => rfl
  | missing absent => rw [step, take_of_none absent]
  | unexpected there other => rw [step, take_of_other there other]
  | @taken child kind there fits =>
    cases kind with
    | none => rw [step, take_any there]
    | some kind => rw [step, take_of_kind there (fits kind rfl)]
  | passed unfit =>
    cases there : c.peek with
    | none => rw [step, takeIf_of_none there]
    | some child => rw [step, takeIf_of_other there (unfit child there)]
  | fitted there same => rw [step, takeIf_of_kind there same]
  | finished => rfl

theorem step_eq_iff_serves : c.step op = (answer, c') ↔ c.Serves op answer c' := by
  constructor
  · intro h
    obtain ⟨answer', behind, serves⟩ := c.exists_serves op
    rw [serves.step_eq] at h
    cases h
    exact serves
  · exact Serves.step_eq

/-- The children that an operation hands out with its answer. Peeking only shows one. -/
def Op.handedOut : Op → Answer → List Node
  | .peek, _ => []
  | _, .node found => found.toList
  | _, .nodes found => found
  | _, .fault _ => []

/-- The children that operations hand out with their answers, in order. -/
def handedOut (ops : List Op) (answers : List Answer) : List Node :=
  (List.zipWith Op.handedOut ops answers).flatten

/-- The cursor has not been moved past the last child. -/
def Inside (c : Cursor) : Prop := c.position ≤ c.node.children.length

/-- From one cursor to another on the same node, these children are handed out. -/
structure Produces (c : Cursor) (handed : List Node) (c' : Cursor) : Prop where
  node : c'.node = c.node
  inside : c.Inside → c'.Inside
  rest : handed ++ c'.remaining = c.remaining

namespace Produces

theorem nothing (c : Cursor) : c.Produces [] c := ⟨rfl, id, rfl⟩

theorem trans (h : c.Produces handed c') (h' : c'.Produces handed' c'') :
    c.Produces (handed ++ handed') c'' where
  node := h'.node.trans h.node
  inside := fun inside => h'.inside (h.inside inside)
  rest := by rw [List.append_assoc, h'.rest, h.rest]

theorem advance {child : Node} (there : c.peek = some child) :
    c.Produces [child] c.advance where
  node := rfl
  inside := by
    intro _
    obtain ⟨before_last, -⟩ := List.getElem?_eq_some_iff.mp there
    exact before_last
  rest := (remaining_of_peek there).symm

theorem finish (c : Cursor) : c.Produces c.remaining c.finish where
  node := rfl
  inside := fun _ => Nat.le_refl _
  rest := by
    have none_left : c.finish.remaining = [] := List.drop_length
    rw [none_left, List.append_nil]

/-- From the first child on, the position counts what has been handed out. -/
theorem eq_take {node : Node} (h : node.cursor.Produces handed c) :
    c.position ≤ node.children.length ∧ handed = node.children.take c.position := by
  have inside : c.position ≤ c.node.children.length := h.inside (Nat.zero_le _)
  have rest : handed ++ c.node.children.drop c.position = node.children := h.rest
  rw [show c.node = node from h.node] at inside rest
  refine ⟨inside, List.append_cancel_right (rest.trans ?_)⟩
  exact (List.take_append_drop c.position node.children).symm

/-- The position goes on by one for each child. -/
theorem position_eq (h : c.Produces handed c') (inside : c.Inside) :
    c'.position = c.position + handed.length := by
  have inside' : c'.position ≤ c'.node.children.length := h.inside inside
  have lengths := congrArg List.length h.rest
  rw [List.length_append, remaining, remaining, List.length_drop, List.length_drop] at lengths
  rw [h.node] at inside' lengths
  have : c.position ≤ c.node.children.length := inside
  omega

/-- A cursor that hands out nothing stays where it is. -/
theorem unmoved (h : c.Produces [] c') (inside : c.Inside) : c' = c := by
  have node := h.node
  have position := h.position_eq inside
  cases c
  cases c'
  cases node
  cases position
  rfl

end Produces

/-- An operation hands out the beginning of what is left. -/
theorem Serves.produces (h : c.Serves op answer c') :
    c.Produces (op.handedOut answer) c' := by
  cases h with
  | peek => exact .nothing c
  | missing absent => exact .nothing c
  | unexpected there other => exact .nothing c
  | taken there fits => exact .advance there
  | passed unfit => exact .nothing c
  | fitted there same => exact .advance there
  | finished => exact .finish c

theorem peek_eq_none_iff (inside : c.Inside) :
    c.peek = none ↔ c.position = c.node.children.length := by
  rw [peek, List.getElem?_eq_none_iff]
  exact ⟨fun behind => Nat.le_antisymm inside behind, fun atEnd => Nat.le_of_eq atEnd.symm⟩

/-- A child is missing when all have been handed out, and only then. -/
theorem step_take_eq_missing_iff (inside : c.Inside) {kind expected : Option NodeKind}
    {text : Text} :
    (c.step (.take kind)).1 = .fault (.missingChild expected text) ↔
      c.position = c.node.children.length ∧ expected = kind ∧ text = c.node.text := by
  rw [← peek_eq_none_iff inside]
  obtain ⟨answer, c', serves⟩ := c.exists_serves (.take kind)
  rw [serves.step_eq]
  cases serves with
  | missing absent =>
    constructor
    · intro same
      cases same
      exact ⟨absent, rfl, rfl⟩
    · rintro ⟨-, rfl, rfl⟩
      rfl
  | unexpected there other =>
    exact ⟨fun same => (nomatch same), fun ⟨absent, _⟩ => (nomatch absent.symm.trans there)⟩
  | taken there fits =>
    exact ⟨fun same => (nomatch same), fun ⟨absent, _⟩ => (nomatch absent.symm.trans there)⟩

/-- The next child is refused when it is of another kind than the wanted one, and only then. -/
theorem step_take_eq_unexpected_iff {kind : Option NodeKind} {seen expected : NodeKind} :
    (c.step (.take kind)).1 = .fault (.unexpectedKind seen expected) ↔
      kind = some expected ∧ seen ≠ expected ∧
        ∃ child, c.peek = some child ∧ child.kind = seen := by
  obtain ⟨answer, c', serves⟩ := c.exists_serves (.take kind)
  rw [serves.step_eq]
  cases serves with
  | missing absent =>
    exact ⟨fun same => (nomatch same),
      fun ⟨_, _, child, there, _⟩ => (nomatch absent.symm.trans there)⟩
  | unexpected there other =>
    constructor
    · intro same
      cases same
      exact ⟨rfl, other, _, there, rfl⟩
    · rintro ⟨wanted, -, child, there', rfl⟩
      cases wanted
      cases there.symm.trans there'
      rfl
  | taken there fits =>
    refine ⟨fun same => (nomatch same), ?_⟩
    rintro ⟨wanted, other, child, there', rfl⟩
    cases there.symm.trans there'
    exact absurd (fits _ wanted) other

theorem run_cons (c : Cursor) (op : Op) (ops : List Op) :
    c.run (op :: ops) =
      ((c.step op).1 :: ((c.step op).2.run ops).1, ((c.step op).2.run ops).2) := rfl

theorem run_append (c : Cursor) (ops ops' : List Op) :
    c.run (ops ++ ops') =
      ((c.run ops).1 ++ ((c.run ops).2.run ops').1, ((c.run ops).2.run ops').2) := by
  induction ops generalizing c with
  | nil => rfl
  | cons op ops ih => rw [List.cons_append, run_cons, run_cons, ih, List.cons_append]

theorem length_run (c : Cursor) (ops : List Op) : (c.run ops).1.length = ops.length := by
  induction ops generalizing c with
  | nil => rfl
  | cons op ops ih => rw [run_cons, List.length_cons, List.length_cons, ih]

/-- A run hands out the beginning of what is left, the children of the first operation in front
of those of the others. -/
theorem run_produces (c : Cursor) (ops : List Op) :
    c.Produces (handedOut ops (c.run ops).1) (c.run ops).2 := by
  induction ops generalizing c with
  | nil => exact .nothing c
  | cons op ops ih =>
    obtain ⟨answer, c', serves⟩ := c.exists_serves op
    rw [run_cons, serves.step_eq]
    exact serves.produces.trans (ih c')

/-- Taking all that is left is taking child after child. -/
theorem run_take_each (inside : c.Inside) :
    c.run (List.replicate c.remaining.length (.take none)) =
      (c.remaining.map fun child => .node (some child), c.finish) := by
  generalize left : c.remaining = children
  induction children generalizing c with
  | nil =>
    have behind : c.node.children.length ≤ c.position := List.drop_eq_nil_iff.mp left
    have atEnd : c = c.finish := by
      rw [finish, ← Nat.le_antisymm inside behind]
    exact congrArg (Prod.mk []) atEnd
  | cons child children ih =>
    have there : c.peek = some child := by rw [peek_eq_head?, left, List.head?_cons]
    have serves : c.Serves (.take none) (.node (some child)) c.advance :=
      .taken there fun k hk => nomatch hk
    have rest : c.advance.remaining = children := by
      rw [remaining_of_peek there] at left
      exact (List.cons.inj left).2
    rw [List.length_cons, List.replicate_succ, run_cons, serves.step_eq,
      ih (serves.produces.inside inside) rest]
    rfl

/-- What an operation answers when no child of the node is left. -/
def answerAtEnd (node : Node) : Op → Answer
  | .peek => .node none
  | .take kind => .fault (.missingChild kind node.text)
  | .takeIf _ => .node none
  | .takeAll => .nodes []

theorem step_finish (c : Cursor) (op : Op) :
    c.finish.step op = (answerAtEnd c.node op, c.finish) := by
  have absent : c.finish.peek = none := List.getElem?_eq_none (Nat.le_refl _)
  have left : c.finish.remaining = [] := List.drop_length
  cases op with
  | peek => exact congrArg (fun found => (Answer.node found, c.finish)) absent
  | take kind => exact (Serves.missing absent).step_eq
  | takeIf kind =>
    have passed : c.finish.Serves (.takeIf kind) (.node none) c.finish :=
      .passed fun child there => nomatch absent.symm.trans there
    exact passed.step_eq
  | takeAll => exact congrArg (fun found => (Answer.nodes found, c.finish)) left

/-- Behind the last child nothing changes any more. -/
theorem run_finish (c : Cursor) (ops : List Op) :
    c.finish.run ops = (ops.map (answerAtEnd c.node), c.finish) := by
  induction ops with
  | nil => rfl
  | cons op ops ih => rw [run_cons, step_finish, ih, List.map_cons]

/-- Any operations on one cursor hand out the children of the node from the first on, in order
and each once, and the position counts them. From where they leave the cursor, looking, passing a
child by and failing do not move it; a child is missing exactly if all have been handed out, and
refused exactly if it is of another kind than the wanted one. Taking all that is left is taking
child after child, and after that every operation comes away with nothing. -/
theorem run_consumes_prefix (node : Node) (ops : List Op) :
    ∃ answers c, node.cursor.run ops = (answers, c) ∧
      (answers.length = ops.length ∧ c.node = node ∧ c.position ≤ node.children.length ∧
        handedOut ops answers = node.children.take c.position) ∧
      (∀ op answer c', c.step op = (answer, c') ↔ c.Serves op answer c') ∧
      ((∀ answer c', c.step .peek = (answer, c') → c' = c) ∧
        (∀ kind c', c.step (.takeIf kind) = (.node none, c') → c' = c) ∧
        ∀ kind e c', c.step (.take kind) = (.fault e, c') → c' = c) ∧
      ((∀ kind expected text,
          (c.step (.take kind)).1 = .fault (.missingChild expected text) ↔
            c.position = node.children.length ∧ expected = kind ∧ text = node.text) ∧
        ∀ kind seen expected,
          (c.step (.take kind)).1 = .fault (.unexpectedKind seen expected) ↔
            kind = some expected ∧ seen ≠ expected ∧
              ∃ child, node.children[c.position]? = some child ∧ child.kind = seen) ∧
      c.run (List.replicate (node.children.length - c.position) (.take none)) =
        ((node.children.drop c.position).map fun child => .node (some child),
          ⟨node, node.children.length⟩) ∧
      ∀ later, node.cursor.run (ops ++ .takeAll :: later) =
        (answers ++ .nodes (node.children.drop c.position) :: later.map (answerAtEnd node),
          ⟨node, node.children.length⟩) := by
  have length := node.cursor.length_run ops
  have produces := node.cursor.run_produces ops
  have append := node.cursor.run_append ops
  generalize node.cursor.run ops = outcome at length produces append
  obtain ⟨answers, c⟩ := outcome
  obtain rfl : c.node = node := produces.node
  obtain ⟨inside, first⟩ := produces.eq_take
  have unmoved : ∀ op answer c', c.step op = (answer, c') → op.handedOut answer = [] → c' = c := by
    intro op answer c' h nothing
    have produces := (step_eq_iff_serves.mp h).produces
    rw [nothing] at produces
    exact produces.unmoved inside
  refine ⟨answers, c, rfl, ⟨length, rfl, inside, first⟩,
    fun op answer c' => step_eq_iff_serves,
    ⟨fun answer c' h => unmoved _ answer c' h rfl, fun kind c' h => unmoved _ _ c' h rfl,
      fun kind e c' h => unmoved _ _ c' h rfl⟩,
    ⟨fun kind expected text => step_take_eq_missing_iff inside,
      fun kind seen expected => step_take_eq_unexpected_iff⟩, ?_, ?_⟩
  · have each := run_take_each inside
    rw [remaining, List.length_drop] at each
    exact each
  · intro later
    rw [append, run_cons, Serves.finished.step_eq, run_finish]
    rfl

/-- A child that is passed by and refused is there for whoever takes all. -/
example :
    let mark : Node := ⟨.inputModifier, ['&'], [], 0⟩
    let name : Node := ⟨.inputName, ['T', 'X'], [], 1⟩
    ((Node.cursor ⟨.input, ['&', 'T', 'X'], [mark, name], 0⟩).run
        [.takeIf .selector, .take (some .inputName), .takeAll, .take none]).1 =
      [.node none, .fault (.unexpectedKind .inputModifier .inputName), .nodes [mark, name],
        .fault (.missingChild none ['&', 'T', 'X'])] := rfl

end Cursor

end WafRules
