import Mathlib.Data.List.Forall2
import WafRules.Model.Rule

/-!
# Trees that are read alike

What a tree is read as is decided by the kinds of its nodes, by their order and by the texts of
the nodes that stand for a word. The texts of the other nodes, the mark of a negation among
them, and all offsets get into an error at most. So two trees that differ in nothing else are
read as the same rule, or both refused for the same cause, which is put down to the same part.

The two readings are followed side by side. They take the same steps, and what they hold in
their hands after each step is alike.
-/

namespace WafRules

/-- The kinds of the nodes that are read by their text. -/
def NodeKind.spelled : List NodeKind :=
  [.inputModifier, .inputName, .selector, .operatorName, .operatorArgument, .actionName,
    .actionArgument]

/-- The trees have the same shape and the same kinds, and the same texts where these are read. -/
inductive Node.Alike : Node → Node → Prop
  | mk {kind : NodeKind} {s t : Text} {left right : List Node} {i j : Nat} :
      (kind ∈ NodeKind.spelled → s = t) → List.Forall₂ Alike left right →
      Alike ⟨kind, s, left, i⟩ ⟨kind, t, right, j⟩

/-- The faults say the same about the same words. The text in which these stand may differ. -/
inductive Fault.SameCause : Fault → Fault → Prop
  | unexpectedKind (kind expected : NodeKind) :
      SameCause (.unexpectedKind kind expected) (.unexpectedKind kind expected)
  | missingChild (expected : Option NodeKind) (s t : Text) :
      SameCause (.missingChild expected s) (.missingChild expected t)
  | unknownInput (name : Text) : SameCause (.unknownInput name) (.unknownInput name)
  | invalidSelector (s t : Text) : SameCause (.invalidSelector s) (.invalidSelector t)
  | invalidModifier (modifier s t : Text) :
      SameCause (.invalidModifier modifier s) (.invalidModifier modifier t)
  | unknownOperator (name s t : Text) :
      SameCause (.unknownOperator name s) (.unknownOperator name t)
  | unknownAction (name s t : Text) : SameCause (.unknownAction name s) (.unknownAction name t)

/-- Both faults are bare, or both are put down to the same part, and they have the same cause. -/
inductive ReadError.SameCause : ReadError → ReadError → Prop
  | fault {e e' : Fault} : e.SameCause e' → SameCause (.fault e) (.fault e')
  | part (part : Part) {e e' : Fault} : e.SameCause e' → SameCause (.part part e) (.part part e')

/-- Two readings end alike: in values of which the one holds, or in errors of which the other
does. -/
inductive EndAlike {ε α β : Type} (SameCause : ε → ε → Prop) (SameValue : α → β → Prop) :
    Except ε α → Except ε β → Prop
  | ok {a : α} {b : β} : SameValue a b → EndAlike SameCause SameValue (.ok a) (.ok b)
  | error {e e' : ε} : SameCause e e' → EndAlike SameCause SameValue (.error e) (.error e')

namespace EndAlike

variable {ε ε' α β γ δ : Type} {Cause : ε → ε → Prop} {Value : α → β → Prop}

/-- Readings that go on alike from where they are alike. -/
theorem bind {Value' : γ → δ → Prop} {x : Except ε α} {y : Except ε β} {f : α → Except ε γ}
    {g : β → Except ε δ} (h : EndAlike Cause Value x y)
    (next : ∀ a b, Value a b → EndAlike Cause Value' (f a) (g b)) :
    EndAlike Cause Value' (x >>= f) (y >>= g) := by
  cases h with
  | ok same => exact next _ _ same
  | error same => exact .error same

theorem mapError {Cause' : ε' → ε' → Prop} {x : Except ε α} {y : Except ε β} {f : ε → ε'}
    (h : EndAlike Cause Value x y) (keeps : ∀ e e', Cause e e' → Cause' (f e) (f e')) :
    EndAlike Cause' Value (x.mapError f) (y.mapError f) := by
  cases h with
  | ok same => exact .ok same
  | error same => exact .error (keeps _ _ same)

/-- Lists are read alike if their items are. -/
theorem mapM {R : α → β → Prop} {f : α → Except ε γ} {g : β → Except ε γ} {left : List α}
    {right : List β} (h : List.Forall₂ R left right)
    (items : ∀ a b, R a b → EndAlike Cause Eq (f a) (g b)) :
    EndAlike Cause Eq (left.mapM f) (right.mapM g) := by
  induction h with
  | nil => exact .ok rfl
  | cons head _ tail =>
    rw [List.mapM_cons, List.mapM_cons]
    refine (items _ _ head).bind fun item _ same => tail.bind fun rest _ same' => ?_
    subst same same'
    exact .ok rfl

end EndAlike

namespace Node.Alike

variable {a b : Node}

theorem kind_eq (h : a.Alike b) : a.kind = b.kind := by
  cases h
  rfl

theorem text_eq (h : a.Alike b) (spelled : a.kind ∈ NodeKind.spelled) : a.text = b.text := by
  cases h with
  | mk same _ => exact same spelled

theorem children (h : a.Alike b) : List.Forall₂ Alike a.children b.children := by
  cases h with
  | mk _ below => exact below

theorem expect (h : a.Alike b) (kind : NodeKind) :
    EndAlike Fault.SameCause Eq (a.expect kind) (b.expect kind) := by
  rw [Node.expect, Node.expect, ← h.kind_eq]
  split
  · exact .ok rfl
  · exact .error (.unexpectedKind _ _)

end Node.Alike

/-- The cursors are at the same place of nodes that are alike. -/
structure Cursor.Alike (c c' : Cursor) : Prop where
  node : c.node.Alike c'.node
  position : c.position = c'.position

theorem Node.Alike.cursor {a b : Node} (h : a.Alike b) : a.cursor.Alike b.cursor := ⟨h, rfl⟩

namespace Cursor.Alike

variable {c c' : Cursor}

theorem advance (h : c.Alike c') : c.advance.Alike c'.advance :=
  ⟨h.node, congrArg (· + 1) h.position⟩

/-- The next child is there for both or for none. -/
theorem peek (h : c.Alike c') :
    (c.peek = none ∧ c'.peek = none) ∨
      ∃ child child', c.peek = some child ∧ c'.peek = some child' ∧ child.Alike child' := by
  rw [Cursor.peek, Cursor.peek, ← h.position]
  have below := h.node.children
  by_cases inside : c.position < c.node.children.length
  · have inside' : c.position < c'.node.children.length := below.length_eq ▸ inside
    exact .inr ⟨_, _, List.getElem?_eq_getElem inside, List.getElem?_eq_getElem inside',
      below.get inside inside'⟩
  · have inside' : ¬ c.position < c'.node.children.length := below.length_eq ▸ inside
    exact .inl ⟨by simpa using inside, by simpa using inside'⟩

theorem take (h : c.Alike c') (kind : NodeKind) :
    EndAlike Fault.SameCause
      (fun taken taken' => taken.1.Alike taken'.1 ∧ taken.1.kind = kind ∧ taken.2.Alike taken'.2)
      (c.take (some kind)) (c'.take (some kind)) := by
  rcases h.peek with ⟨absent, absent'⟩ | ⟨child, child', there, there', alike⟩
  · rw [Cursor.take_of_none absent, Cursor.take_of_none absent']
    exact .error (.missingChild _ _ _)
  · rw [Cursor.take, Cursor.take, there, there']
    simp only [Node.expect, ← alike.kind_eq]
    split
    · rename_i same
      exact .ok ⟨alike, same, h.advance⟩
    · exact .error (.unexpectedKind _ _)

/-- A child that may be absent is taken by both or left by both. -/
theorem takeIf (h : c.Alike c') (kind : NodeKind) :
    ∃ found found' behind behind', c.takeIf kind = (found, behind) ∧
      c'.takeIf kind = (found', behind') ∧ found.isSome = found'.isSome ∧
      (kind ∈ NodeKind.spelled → found.map Node.text = found'.map Node.text) ∧
      behind.Alike behind' := by
  rcases h.peek with ⟨absent, absent'⟩ | ⟨child, child', there, there', alike⟩
  · exact ⟨none, none, c, c', Cursor.takeIf_of_none absent kind,
      Cursor.takeIf_of_none absent' kind, rfl, fun _ => rfl, h⟩
  · by_cases same : child.kind = kind
    · have same' : child'.kind = kind := alike.kind_eq ▸ same
      exact ⟨some child, some child', c.advance, c'.advance, Cursor.takeIf_of_kind there same,
        Cursor.takeIf_of_kind there' same', rfl,
        fun spelled => congrArg some (alike.text_eq (same ▸ spelled)), h.advance⟩
    · have other : child'.kind ≠ kind := alike.kind_eq ▸ same
      exact ⟨none, none, c, c', Cursor.takeIf_of_other there same,
        Cursor.takeIf_of_other there' other, rfl, fun _ => rfl, h⟩

end Cursor.Alike

/-- The text of the whole input is only reported. -/
theorem Selector.ofWritten_alike (modifier key : Option Text) (s t : Text) :
    EndAlike Fault.SameCause Eq (ofWritten modifier key s) (ofWritten modifier key t) := by
  have withKey (bare : Option Selector) (keyed : Key → Selector) :
      EndAlike Fault.SameCause Eq (ofWritten.withKey key s bare keyed)
        (ofWritten.withKey key t bare keyed) := by
    rw [ofWritten.withKey.eq_def, ofWritten.withKey.eq_def]
    cases key with
    | none =>
      cases bare with
      | none => exact .error (.invalidSelector s t)
      | some selector => exact .ok rfl
    | some word =>
      cases hkey : Key.ofText? word with
      | none => simpa [hkey] using EndAlike.error (.invalidSelector s t)
      | some k => simpa [hkey] using EndAlike.ok rfl
  rw [ofWritten.eq_def, ofWritten.eq_def]
  cases modifier with
  | none => exact withKey _ _
  | some m =>
    dsimp only
    split
    · exact withKey _ _
    · exact withKey _ _
    · exact .error (.invalidModifier m s t)

theorem Operator.nameOfNode_alike {name name' : Option Node}
    (h : name.map Node.text = name'.map Node.text) (s t : Text) :
    EndAlike Fault.SameCause Eq (nameOfNode name s) (nameOfNode name' t) := by
  cases name with
  | none =>
    cases name' with
    | none => exact .ok rfl
    | some node' => cases h
  | some node =>
    cases name' with
    | none => cases h
    | some node' =>
      have same : node.text = node'.text := Option.some.inj h
      rw [nameOfNode, nameOfNode, ← same]
      cases Vocabulary.ofText? (α := OperatorName) (node.text.drop 1) with
      | none => exact .error (.unknownOperator _ s t)
      | some word => exact .ok rfl

namespace Node.Alike

variable {a b : Node}

/-- Behind its children an input is read from the same words in both trees, and only what would
be reported differs. -/
theorem input (h : a.Alike b) :
    EndAlike Fault.SameCause Eq (Input.ofNode a) (Input.ofNode b) := by
  rw [Input.ofNode, Input.ofNode]
  refine (h.expect .input).bind fun _ _ _ => ?_
  obtain ⟨modifier, modifier', front, front', taken, taken', -, mark, alike⟩ :=
    h.cursor.takeIf .inputModifier
  rw [taken, taken']
  refine (alike.take .inputName).bind ?_
  rintro ⟨name, behind⟩ ⟨name', behind'⟩ ⟨named, kind, alike⟩
  obtain ⟨key, key', last, last', taken, taken', -, word, -⟩ := alike.takeIf .selector
  have spelled : name.text = name'.text := named.text_eq (by rw [kind]; decide)
  simp only [taken, taken', ← spelled, ← mark (by decide), ← word (by decide)]
  cases Vocabulary.ofText? (α := Variable) name.text with
  | none => exact .error (.unknownInput _)
  | some variableName =>
    refine (Selector.ofWritten_alike _ _ a.text b.text).bind fun selector _ same => ?_
    subst same
    exact .ok rfl

theorem operator (h : a.Alike b) :
    EndAlike Fault.SameCause Eq (Operator.ofNode a) (Operator.ofNode b) := by
  rw [Operator.ofNode, Operator.ofNode]
  refine (h.expect .operator).bind fun _ _ _ => ?_
  obtain ⟨negation, negation', front, front', taken, taken', negated, -, alike⟩ :=
    h.cursor.takeIf .operatorNegation
  simp only [taken, taken', ← negated]
  obtain ⟨name, name', behind, behind', taken, taken', -, named, alike⟩ :=
    alike.takeIf .operatorName
  simp only [taken, taken']
  obtain ⟨argument, argument', last, last', taken, taken', -, written, -⟩ :=
    alike.takeIf .operatorArgument
  simp only [taken, taken']
  refine (Operator.nameOfNode_alike (named (by decide)) a.text b.text).bind fun word _ same => ?_
  subst same
  have same : argument.elim [] Node.text = argument'.elim [] Node.text := by
    simpa [Option.elim_map] using congrArg (Option.elim · [] id) (written (by decide))
  rw [same]
  exact .ok rfl

theorem action (h : a.Alike b) :
    EndAlike Fault.SameCause Eq (Action.ofNode a) (Action.ofNode b) := by
  rw [Action.ofNode, Action.ofNode]
  refine (h.expect .action).bind fun _ _ _ => ?_
  refine (h.cursor.take .actionName).bind ?_
  rintro ⟨name, behind⟩ ⟨name', behind'⟩ ⟨named, kind, alike⟩
  obtain ⟨argument, argument', last, last', taken, taken', -, written, -⟩ :=
    alike.takeIf .actionArgument
  have spelled : name.text = name'.text := named.text_eq (by rw [kind]; decide)
  simp only [taken, taken', ← spelled]
  cases Vocabulary.ofText? (α := ActionName) name.text with
  | none => exact .error (.unknownAction _ _ _)
  | some actionName =>
    have same := congrArg (Option.map Action.unquote) (written (by decide))
    rw [Option.map_map, Option.map_map] at same
    exact .ok (congrArg (Action.mk actionName) same)

theorem inputs (h : a.Alike b) :
    EndAlike Fault.SameCause Eq (Inputs.ofNode a) (Inputs.ofNode b) :=
  (h.expect .inputs).bind fun _ _ _ => .mapM h.children fun _ _ => input

theorem actions (h : a.Alike b) :
    EndAlike Fault.SameCause Eq (Actions.ofNode a) (Actions.ofNode b) :=
  (h.expect .actions).bind fun _ _ _ => .mapM h.children fun _ _ => action

end Node.Alike

/-- The next children are read as a part by the same reader, which reads what is alike alike. -/
theorem Cursor.Alike.part {α : Type} {c c' : Cursor} (h : c.Alike c') (part : Part)
    (kind : NodeKind) {read : Node → Except Fault α}
    (reads : ∀ a b : Node, a.Alike b → EndAlike Fault.SameCause Eq (read a) (read b)) :
    EndAlike ReadError.SameCause
      (fun taken taken' => taken.1 = taken'.1 ∧ taken.2.Alike taken'.2)
      (c.part part kind read) (c'.part part kind read) := by
  refine EndAlike.mapError ?_ fun _ _ => ReadError.SameCause.part part
  refine (h.take kind).bind ?_
  rintro ⟨child, behind⟩ ⟨child', behind'⟩ ⟨alike, -, further⟩
  refine (reads child child' alike).bind fun value _ same => ?_
  subst same
  exact .ok ⟨rfl, further⟩

/-- Trees of the same shape and kinds, with the same texts where a word stands, are read as the
same rule, or they are refused alike: bare or on account of the same part, with faults that
differ at most in the surrounding text that they report. -/
theorem Rule.ofNode_alike {a b : Node} (h : a.Alike b) :
    EndAlike ReadError.SameCause Eq (Rule.ofNode a) (Rule.ofNode b) := by
  rw [Rule.ofNode, Rule.ofNode]
  refine ((h.expect .secRule).mapError fun _ _ => ReadError.SameCause.fault).bind fun _ _ _ => ?_
  refine (h.cursor.part .inputs .inputs fun _ _ => Node.Alike.inputs).bind ?_
  rintro ⟨inputs, front⟩ ⟨_, front'⟩ ⟨rfl, alike⟩
  refine (alike.part .operator .operator fun _ _ => Node.Alike.operator).bind ?_
  rintro ⟨operator, behind⟩ ⟨_, behind'⟩ ⟨rfl, alike⟩
  refine (alike.part .actions .actions fun _ _ => Node.Alike.actions).bind ?_
  rintro ⟨actions, last⟩ ⟨_, last'⟩ ⟨rfl, -⟩
  exact .ok rfl

/-- An excluded variable without a key is refused on account of the inputs, whatever the texts
around its words are. These get into the fault. -/
theorem Rule.ofNode_alike_of_keyless :
    let tree (s : Text) (start : Nat) : Node :=
      ⟨.secRule, s, [⟨.inputs, s, [⟨.input, s,
        [⟨.inputModifier, ['!'], [], start⟩, ⟨.inputName, ['T', 'X'], [], start⟩], start⟩], start⟩,
        ⟨.operator, s, [⟨.operatorNegation, s, [], start⟩], start⟩, ⟨.actions, s, [], start⟩], start⟩
    (tree ['!', 'T', 'X'] 8).Alike (tree [] 0) ∧
    Rule.ofNode (tree ['!', 'T', 'X'] 8) =
      .error (.part .inputs (.invalidSelector ['!', 'T', 'X'])) ∧
    Rule.ofNode (tree [] 0) = .error (.part .inputs (.invalidSelector [])) ∧
    EndAlike ReadError.SameCause Eq (Rule.ofNode (tree ['!', 'T', 'X'] 8))
      (Rule.ofNode (tree [] 0)) := by
  intro tree
  have leaf (kind : NodeKind) (s : Text) : Node.Alike ⟨kind, s, [], 8⟩ ⟨kind, s, [], 0⟩ :=
    .mk (fun _ => rfl) .nil
  have negation : Node.Alike ⟨.operatorNegation, ['!', 'T', 'X'], [], 8⟩
      ⟨.operatorNegation, [], [], 0⟩ := .mk (by decide) .nil
  have alike : (tree ['!', 'T', 'X'] 8).Alike (tree [] 0) := by
    refine .mk (by decide) (.cons (.mk (by decide) (.cons (.mk (by decide) ?_) .nil))
      (.cons (.mk (by decide) (.cons negation .nil)) (.cons (.mk (by decide) .nil) .nil)))
    exact .cons (leaf .inputModifier ['!']) (.cons (leaf .inputName ['T', 'X']) .nil)
  exact ⟨alike, rfl, rfl, Rule.ofNode_alike alike⟩

end WafRules
