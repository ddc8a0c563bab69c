import WafRules.Proofs.WellFormed

/-!
# Trees put together by hand

How a tree of any kinds, texts and shape is read as a rule. A node that is no rule is refused
as it is. Otherwise the first three children are looked at, one for each part and in this
order. A child that is missing, of another kind or itself unreadable ends the reading, and
its fault is put down to the part once. What stands behind the third child is not looked at.

A selector can be put together wrongly in ways that no tree shows: by a kind that needs a key
without one, or by a key for a kind that takes none. The modifier and the key of an input node
are therefore compared with the kind they ask for. Reading them fails exactly where making a
selector of this kind would.
-/

namespace WafRules

/-- What the child at a position is read as, where one of the kind is needed. -/
inductive Node.ChildReadAs {α : Type} (node : Node) (position : Nat) (kind : NodeKind)
    (read : Node → Except Fault α) : Except Fault α → Prop
  | missing : node.children[position]? = none →
      ChildReadAs node position kind read (.error (.missingChild (some kind) node.text))
  | misplaced {child : Node} : node.children[position]? = some child → child.kind ≠ kind →
      ChildReadAs node position kind read (.error (.unexpectedKind child.kind kind))
  | present {child : Node} : node.children[position]? = some child → child.kind = kind →
      ChildReadAs node position kind read (read child)

/-- What a node is read as: a rule if it is one and its parts can be read, and otherwise the
first thing that is wrong. -/
inductive Rule.ReadFrom (node : Node) : Except ReadError Rule → Prop
  | unexpected : node.kind ≠ .secRule →
      ReadFrom node (.error (.fault (.unexpectedKind node.kind .secRule)))
  | inputs {e : Fault} : node.kind = .secRule →
      node.ChildReadAs 0 .inputs Inputs.ofNode (.error e) →
      ReadFrom node (.error (.part .inputs e))
  | operator {is : List Input} {e : Fault} : node.kind = .secRule →
      node.ChildReadAs 0 .inputs Inputs.ofNode (.ok is) →
      node.ChildReadAs 1 .operator Operator.ofNode (.error e) →
      ReadFrom node (.error (.part .operator e))
  | actions {is : List Input} {o : Operator} {e : Fault} : node.kind = .secRule →
      node.ChildReadAs 0 .inputs Inputs.ofNode (.ok is) →
      node.ChildReadAs 1 .operator Operator.ofNode (.ok o) →
      node.ChildReadAs 2 .actions Actions.ofNode (.error e) →
      ReadFrom node (.error (.part .actions e))
  | rule {is : List Input} {o : Operator} {as : List Action} : node.kind = .secRule →
      node.ChildReadAs 0 .inputs Inputs.ofNode (.ok is) →
      node.ChildReadAs 1 .operator Operator.ofNode (.ok o) →
      node.ChildReadAs 2 .actions Actions.ofNode (.ok as) →
      ReadFrom node (.ok ⟨is, o, as⟩)

namespace Node

variable {α : Type} {node : Node} {position : Nat} {kind : NodeKind}
  {read : Node → Except Fault α} {result : Except Fault α}

theorem exists_childReadAs (node : Node) (position : Nat) (kind : NodeKind)
    (read : Node → Except Fault α) : ∃ result, node.ChildReadAs position kind read result := by
  cases h : node.children[position]? with
  | none => exact ⟨_, .missing h⟩
  | some child =>
    by_cases hkind : child.kind = kind
    · exact ⟨_, .present h hkind⟩
    · exact ⟨_, .misplaced h hkind⟩

/-- Only the child at the position and the text of the node matter. -/
theorem ChildReadAs.congr (h : node.ChildReadAs position kind read result) {node' : Node}
    (text : node'.text = node.text)
    (child : node'.children[position]? = node.children[position]?) :
    node'.ChildReadAs position kind read result := by
  cases h with
  | missing absent =>
    rw [← text]
    exact .missing (child.trans absent)
  | misplaced there other => exact .misplaced (child.trans there) other
  | present there same => exact .present (child.trans there) same

/-- Where a value is read there is a child of the kind. -/
theorem ChildReadAs.exists_child {value : α}
    (h : node.ChildReadAs position kind read (.ok value)) :
    ∃ child, node.children[position]? = some child ∧ child.kind = kind ∧
      read child = .ok value := by
  generalize hresult : Except.ok value = result at h
  cases h with
  | missing absent => contradiction
  | misplaced there other => contradiction
  | present there same => exact ⟨_, there, same, rfl⟩

/-- Reading a part reads the child at the position of the cursor and goes on behind it. -/
theorem ChildReadAs.part_eq (h : node.ChildReadAs position kind read result) (part : Part) :
    (⟨node, position⟩ : Cursor).part part kind read =
      (result.mapError (.part part)).map fun value => (value, ⟨node, position + 1⟩) := by
  cases h with
  | missing absent =>
    have peek : (⟨node, position⟩ : Cursor).peek = none := absent
    rw [Cursor.part, Cursor.take_of_none peek]
    rfl
  | @misplaced child there other =>
    have peek : (⟨node, position⟩ : Cursor).peek = some child := there
    rw [Cursor.part, Cursor.take_of_other peek other]
    rfl
  | present there same =>
    subst same
    exact Form.part_of_peek part read there

/-- A part that is read hands its value on. -/
theorem ChildReadAs.bind_part {β : Type} {value : α}
    (h : node.ChildReadAs position kind read (.ok value)) (part : Part)
    (next : α × Cursor → Except ReadError β) :
    ((⟨node, position⟩ : Cursor).part part kind read).bind next =
      next (value, ⟨node, position + 1⟩) := by
  rw [h.part_eq]
  rfl

/-- A part that cannot be read ends the reading. -/
theorem ChildReadAs.bind_part_error {β : Type} {e : Fault}
    (h : node.ChildReadAs position kind read (.error e)) (part : Part)
    (next : α × Cursor → Except ReadError β) :
    ((⟨node, position⟩ : Cursor).part part kind read).bind next = .error (.part part e) := by
  rw [h.part_eq]
  rfl

end Node

namespace Rule

variable {node : Node} {result : Except ReadError Rule}

/-- A node that is a rule is read part by part. -/
theorem ofNode_of_kind (h : node.kind = .secRule) :
    ofNode node = (do
      let (inputs, cursor) ← node.cursor.part .inputs .inputs Inputs.ofNode
      let (operator, cursor) ← cursor.part .operator .operator Operator.ofNode
      let (actions, _) ← cursor.part .actions .actions Actions.ofNode
      return ⟨inputs, operator, actions⟩) := by
  have expected : node.expect .secRule = .ok () := by simp [Node.expect, h]
  rw [ofNode, expected]
  rfl

theorem ofNode_of_readFrom (h : ReadFrom node result) : ofNode node = result := by
  cases h with
  | unexpected hkind =>
    have refused : node.expect .secRule = .error (.unexpectedKind node.kind .secRule) := by
      simp [Node.expect, hkind]
    rw [ofNode, refused]
    rfl
  | inputs hkind hi =>
    rw [ofNode_of_kind hkind]
    exact hi.bind_part_error _ _
  | operator hkind hi ho =>
    rw [ofNode_of_kind hkind]
    exact (hi.bind_part _ _).trans (ho.bind_part_error _ _)
  | actions hkind hi ho ha =>
    rw [ofNode_of_kind hkind]
    exact (hi.bind_part _ _).trans ((ho.bind_part _ _).trans (ha.bind_part_error _ _))
  | rule hkind hi ho ha =>
    rw [ofNode_of_kind hkind]
    exact (hi.bind_part _ _).trans ((ho.bind_part _ _).trans (ha.bind_part _ _))

theorem exists_readFrom (node : Node) : ∃ result, ReadFrom node result := by
  by_cases hkind : node.kind = .secRule
  · obtain ⟨inputs, hi⟩ := node.exists_childReadAs 0 .inputs Inputs.ofNode
    obtain ⟨operator, ho⟩ := node.exists_childReadAs 1 .operator Operator.ofNode
    obtain ⟨actions, ha⟩ := node.exists_childReadAs 2 .actions Actions.ofNode
    cases inputs with
    | error e => exact ⟨_, .inputs hkind hi⟩
    | ok is =>
      cases operator with
      | error e => exact ⟨_, .operator hkind hi ho⟩
      | ok o =>
        cases actions with
        | error e => exact ⟨_, .actions hkind hi ho ha⟩
        | ok as => exact ⟨_, .rule hkind hi ho ha⟩
  · exact ⟨_, .unexpected hkind⟩

/-- Reading has the outcome that its description gives, and no other. -/
theorem ofNode_eq_iff_readFrom : ofNode node = result ↔ ReadFrom node result := by
  constructor
  · rintro rfl
    obtain ⟨described, h⟩ := exists_readFrom node
    rwa [ofNode_of_readFrom h]
  · exact ofNode_of_readFrom

/-- Children behind the third are not looked at. -/
theorem ReadFrom.take_three (h : ReadFrom node result) :
    ReadFrom { node with children := node.children.take 3 } result := by
  have child (position : Nat) (before : position < 3) :
      (node.children.take 3)[position]? = node.children[position]? := by
    rw [List.getElem?_take, if_pos before]
  cases h with
  | unexpected hkind => exact .unexpected hkind
  | inputs hkind hi => exact .inputs hkind (hi.congr rfl (child 0 (by decide)))
  | operator hkind hi ho =>
    exact .operator hkind (hi.congr rfl (child 0 (by decide)))
      (ho.congr rfl (child 1 (by decide)))
  | actions hkind hi ho ha =>
    exact .actions hkind (hi.congr rfl (child 0 (by decide)))
      (ho.congr rfl (child 1 (by decide))) (ha.congr rfl (child 2 (by decide)))
  | rule hkind hi ho ha =>
    exact .rule hkind (hi.congr rfl (child 0 (by decide)))
      (ho.congr rfl (child 1 (by decide))) (ha.congr rfl (child 2 (by decide)))

end Rule

/-- The kind of selector that a modifier and a key ask for, as far as they are there. -/
inductive SelectorKind.AskedBy : Option Text → Option Text → SelectorKind → Prop
  | whole : AskedBy none none .whole
  | only (key : Text) : AskedBy none (some key) .only
  | without (key : Option Text) : AskedBy (some ['!']) key .without
  | count (key : Text) : AskedBy (some ['&']) (some key) .count
  | countAll : AskedBy (some ['&']) none .countAll

namespace Selector

/-- A key that is there is taken or refused by what makes a selector with a key. -/
theorem withKey_eq_keyed (key text : Text) (bare : Option Selector) (kind : SelectorKind)
    (keyed : Key → Selector) :
    ofWritten.withKey (some key) text bare keyed =
      (make.keyed kind (some key) keyed).mapError fun _ => .invalidSelector text := by
  rw [ofWritten.withKey, make.keyed, Option.bind_some]
  cases Key.ofText? key <;> rfl

/-- Where a kind is asked for, a selector of this kind is made, or cannot be made. -/
theorem ofWritten_of_askedBy {modifier key : Option Text} {kind : SelectorKind}
    (h : SelectorKind.AskedBy modifier key kind) (text : Text) :
    ofWritten modifier key text = (make kind key).mapError fun _ => .invalidSelector text := by
  cases h with
  | whole => rfl
  | only key => exact withKey_eq_keyed key text (some .whole) .only .only
  | without key =>
    cases key with
    | none => rfl
    | some key => exact withKey_eq_keyed key text none .without .without
  | count key => exact withKey_eq_keyed key text (some .countAll) .count .count
  | countAll => rfl

/-- Any other modifier asks for nothing, and is reported. -/
theorem ofWritten_of_not_askedBy {modifier key : Option Text}
    (h : ∀ kind, ¬ SelectorKind.AskedBy modifier key kind) (text : Text) :
    ∃ m, modifier = some m ∧ ofWritten modifier key text = .error (.invalidModifier m text) := by
  cases modifier with
  | none =>
    cases key with
    | none => exact absurd .whole (h .whole)
    | some key => exact absurd (.only key) (h .only)
  | some m =>
    refine ⟨m, rfl, ?_⟩
    simp only [ofWritten]
    split
    · rename_i known
      have spelled : ['!'] = m := Vocabulary.text_of_ofText?_eq_some known
      subst spelled
      exact absurd (.without key) (h .without)
    · rename_i known
      have spelled : ['&'] = m := Vocabulary.text_of_ofText?_eq_some known
      subst spelled
      cases key with
      | none => exact absurd .countAll (h .countAll)
      | some key => exact absurd (.count key) (h .count)
    · rfl

end Selector

/-- An input node spells out a modifier, a name and a key, the first and the last if they are
there. Children behind these are not looked at. -/
inductive Input.SpelledBy (node : Node) : Option Text → Text → Option Text → Prop
  | mk {modifier : Option Node} {name : Node} {behind : List Node} :
      node.children = modifier.toList ++ name :: behind →
      (∀ child ∈ modifier, child.kind = .inputModifier) → name.kind = .inputName →
      SpelledBy node (modifier.map Node.text) name.text
        ((behind.head?.filter fun child => child.kind = .selector).map Node.text)

/-- The children of an input node are read in order: a modifier if there is one, a name, and
then a key if there is one. -/
theorem Input.spelledBy_of_ofNode {node : Node} {i : Input} (h : ofNode node = .ok i) :
    ∃ modifier key, SpelledBy node modifier (Vocabulary.text i.name) key ∧
      Selector.ofWritten modifier key node.text = .ok i.selector := by
  simp only [ofNode, bind, Except.bind] at h
  split at h
  · contradiction
  · split at h
    · contradiction
    · rename_i _ taken hname
      obtain ⟨name, cursor⟩ := taken
      obtain ⟨there, named, rfl⟩ := Cursor.of_take_eq_ok hname
      have front := node.cursor.remaining_eq_takeIf .inputModifier
      rw [Cursor.remaining_of_peek there] at front
      have mark : ∀ child ∈ (node.cursor.takeIf .inputModifier).1,
          child.kind = .inputModifier := by
        intro child hchild
        rw [Cursor.takeIf_fst, Option.mem_filter_iff] at hchild
        exact of_decide_eq_true hchild.2
      split at h
      · contradiction
      · rename_i known
        split at h
        · contradiction
        · rename_i written
          cases h
          rw [Cursor.takeIf_fst .selector, Cursor.peek_eq_head?] at written
          rw [Vocabulary.text_of_ofText?_eq_some known]
          exact ⟨_, _, .mk front mark named, written⟩

theorem Inputs.mapM_of_ofNode {node : Node} {is : List Input} (h : ofNode node = .ok is) :
    node.children.mapM Input.ofNode = .ok is := by
  simp only [ofNode, bind, Except.bind] at h
  split at h
  · contradiction
  · exact h

namespace Rule

theorem ofNode_eq_fault_iff {node : Node} {e : Fault} :
    ofNode node = .error (.fault e) ↔
      node.kind ≠ .secRule ∧ e = .unexpectedKind node.kind .secRule := by
  rw [ofNode_eq_iff_readFrom]
  constructor
  · intro h
    cases h with
    | unexpected other => exact ⟨other, rfl⟩
  · rintro ⟨other, rfl⟩
    exact .unexpected other

/-- The selector of an input in a rule was made of what an input node below the first child
spells out. -/
theorem exists_made_of_ofNode {node : Node} {r : Rule} (h : ofNode node = .ok r) {i : Input}
    (hi : i ∈ r.inputs) :
    ∃ list, node.children[0]? = some list ∧ ∃ child ∈ list.children, ∃ modifier key kind,
      Input.SpelledBy child modifier (Vocabulary.text i.name) key ∧
      SelectorKind.AskedBy modifier key kind ∧ Selector.make kind key = .ok i.selector := by
  cases ofNode_eq_iff_readFrom.mp h with
  | rule _ inputs _ _ =>
    obtain ⟨list, there, -, read⟩ := inputs.exists_child
    obtain ⟨child, hchild, hread⟩ := exists_of_mapM_eq_ok (Inputs.mapM_of_ofNode read) hi
    obtain ⟨modifier, key, spelled, written⟩ := Input.spelledBy_of_ofNode hread
    by_cases asked : ∃ kind, SelectorKind.AskedBy modifier key kind
    · obtain ⟨kind, asked⟩ := asked
      rw [Selector.ofWritten_of_askedBy asked, mapError_eq_ok_iff] at written
      exact ⟨list, there, child, hchild, modifier, key, kind, spelled, asked, written⟩
    · obtain ⟨m, -, refused⟩ :=
        Selector.ofWritten_of_not_askedBy (not_exists.mp asked) child.text
      rw [refused] at written
      contradiction

/-- Reading any tree as a rule is all or nothing. A node of another kind is refused bare, and
the first part that is missing, misplaced or unreadable is reported once, as a part. There is
no other outcome, children behind the third do not matter, and a selector is refused exactly
where it could not be made, so each selector in a rule is one that was made. -/
theorem ofNode_all_or_nothing :
    (∀ node result, ofNode node = result ↔ ReadFrom node result) ∧
    (∀ node e, ofNode node = .error (.fault e) ↔
      node.kind ≠ .secRule ∧ e = .unexpectedKind node.kind .secRule) ∧
    (∀ node : Node, ofNode { node with children := node.children.take 3 } = ofNode node) ∧
    (∀ modifier key text,
      (∀ kind, SelectorKind.AskedBy modifier key kind →
        Selector.ofWritten modifier key text =
          (Selector.make kind key).mapError fun _ => .invalidSelector text) ∧
      ((∀ kind, ¬ SelectorKind.AskedBy modifier key kind) →
        ∃ m, modifier = some m ∧
          Selector.ofWritten modifier key text = .error (.invalidModifier m text))) ∧
    ∀ node r, ofNode node = .ok r → ∀ i ∈ r.inputs,
      ∃ list, node.children[0]? = some list ∧ ∃ child ∈ list.children, ∃ modifier key kind,
        Input.SpelledBy child modifier (Vocabulary.text i.name) key ∧
        SelectorKind.AskedBy modifier key kind ∧ Selector.make kind key = .ok i.selector := by
  refine ⟨fun node result => ofNode_eq_iff_readFrom, fun node e => ofNode_eq_fault_iff,
    fun node => ?_, fun modifier key text => ⟨fun kind asked => ?_, fun unasked => ?_⟩,
    fun node r h i hi => exists_made_of_ofNode h hi⟩
  · obtain ⟨result, h⟩ := exists_readFrom node
    rw [ofNode_of_readFrom h]
    exact ofNode_of_readFrom h.take_three
  · exact Selector.ofWritten_of_askedBy asked text
  · exact Selector.ofWritten_of_not_askedBy unasked text

/-- A key that is there but empty is refused with the text of the whole input. -/
example : Input.ofNode ⟨.input, ['T', 'X', ':'],
    [⟨.inputName, ['T', 'X'], [], 0⟩, ⟨.selector, [], [], 3⟩], 0⟩ =
      .error (.invalidSelector ['T', 'X', ':']) := rfl

end Rule

end WafRules
