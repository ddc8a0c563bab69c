import WafRules.Proofs.Acceptance

/-!
# The shape of trees

A tree that a text is read as loses nothing. Every node stands for the piece of the text at
its offset, its children lie in this piece one behind the other, and what they leave are
blanks and the marks of its own rule. Rules without a kind leave no trace, so which kinds the
children have is said here once more, without them.

Trees that are put together by hand need not have this shape.
-/

namespace WafRules

/-- The text is a row of these words. -/
def Text.RowOf (words : List Text) (s : Text) : Prop :=
  ∃ row : List Text, row.flatten = s ∧ ∀ word ∈ row, word ∈ words

namespace Text.RowOf

variable {words : List Text} {s t : Text}

theorem nil : RowOf words [] := ⟨[], rfl, by simp⟩

theorem word (h : s ∈ words) : RowOf words s := ⟨[s], by simp, by simpa using h⟩

theorem append (hs : RowOf words s) (ht : RowOf words t) : RowOf words (s ++ t) := by
  obtain ⟨row, rfl, left⟩ := hs
  obtain ⟨row', rfl, right⟩ := ht
  exact ⟨row ++ row', List.flatten_append, List.forall_mem_append.mpr ⟨left, right⟩⟩

theorem blanks (b : Form.Blanks) (space : [' '] ∈ words) (tab : ['\t'] ∈ words) :
    RowOf words b.text := by
  refine ⟨b.text.map ([·]), by simp [← List.flatMap_def], ?_⟩
  intro w hw
  obtain ⟨c, hc, rfl⟩ := List.mem_map.mp hw
  rcases isBlank_iff.mp (b.blank c hc) with rfl | rfl
  · exact space
  · exact tab

end Text.RowOf

namespace NodeKind

/-- The kind behind a question mark. -/
def optionally (present : Bool) (kind : NodeKind) : List NodeKind :=
  if present then [kind] else []

/-- The kinds that stand for a word. -/
def words : List NodeKind :=
  [.inputModifier, .inputName, .selector, .operatorNegation, .operatorName, .operatorArgument,
    .actionName, .actionArgument]

/-- Which kinds the children of a node have, in order. -/
inductive HasChildren : NodeKind → List NodeKind → Prop
  | secRule : HasChildren .secRule [.inputs, .operator, .actions]
  | inputs (more : Nat) : HasChildren .inputs (List.replicate (more + 1) .input)
  | input (marked keyed : Bool) : HasChildren .input
      (optionally marked .inputModifier ++ (.inputName :: optionally keyed .selector))
  | named (negated argued : Bool) : HasChildren .operator
      (optionally negated .operatorNegation ++
        (.operatorName :: optionally argued .operatorArgument))
  | implicit (negated : Bool) : HasChildren .operator
      (optionally negated .operatorNegation ++ [.operatorArgument])
  | actions (count : Nat) : HasChildren .actions (List.replicate count .action)
  | action (argued : Bool) : HasChildren .action
      (.actionName :: optionally argued .actionArgument)
  | word {kind : NodeKind} (h : kind ∈ words) : HasChildren kind []

/-- What may stand in a node of the kind beside its children. -/
def separators : NodeKind → List Text
  | .secRule => [[' '], ['\t'], Grammar.directiveWord.toList]
  | .inputs => [['|']]
  | .input => [[':']]
  | .operator => [[' '], ['\t']]
  | .actions => [[' '], ['\t'], [',']]
  | .action => [[':']]
  | _ => []

end NodeKind

namespace Node

/-- The offset behind the text of the node. -/
def stop (n : Node) : Nat := n.start + n.text.length

/-- From the offset on, the text is the children with rows of the words before, between and
behind them. -/
inductive Tiled (words : List Text) : Nat → Text → List Node → Prop
  | gap (start : Nat) {s : Text} : Text.RowOf words s → Tiled words start s []
  | child {start : Nat} {s rest : Text} {c : Node} {cs : List Node} : Text.RowOf words s →
      c.start = start + s.length → Tiled words c.stop rest cs →
      Tiled words start (s ++ (c.text ++ rest)) (c :: cs)

/-- A node is made of its children and of separators, between quotes if it is quoted. Words
are not taken apart. -/
def Arranged (n : Node) : Prop :=
  match n.kind with
  | .secRule | .inputs | .input | .action => Tiled n.kind.separators n.start n.text n.children
  | .operator | .actions => ∃ inner, n.text = '"' :: (inner ++ ['"']) ∧
      Tiled n.kind.separators (n.start + 1) inner n.children
  | _ => n.children = []

/-- The node and all nodes below it are made as their kinds ask for. -/
inductive WellMade : Node → Prop
  | intro {n : Node} : n.kind.HasChildren (n.children.map Node.kind) → n.Arranged →
      (∀ c ∈ n.children, c.WellMade) → n.WellMade

/-- The nodes of a tree. -/
inductive Contains (root : Node) : Node → Prop
  | root : Contains root root
  | child {n c : Node} : Contains root n → c ∈ n.children → Contains root c

/-- How a node stands in the text that was read. -/
structure ShapedIn (s : Text) (n : Node) : Prop where
  slice : n.text = (s.drop n.start).take n.text.length
  inside : ∀ c ∈ n.children, n.start ≤ c.start ∧ c.stop ≤ n.stop
  ordered : n.children.Pairwise fun c d => c.stop ≤ d.start
  kinds : n.kind.HasChildren (n.children.map Node.kind)
  arranged : n.Arranged

namespace Tiled

variable {words : List Text} {start : Nat} {s t : Text} {cs ds : List Node}

theorem nil (start : Nat) : Tiled words start [] [] := .gap start .nil

theorem one (c : Node) : Tiled words c.start c.text [c] := by
  have only : Tiled words c.start ([] ++ (c.text ++ [])) [c] :=
    .child .nil rfl (.nil c.stop)
  simpa using only

/-- More separators in front. -/
theorem behind (h : Text.RowOf words s) (tail : Tiled words (start + s.length) t cs) :
    Tiled words start (s ++ t) cs := by
  cases tail with
  | gap _ ht => exact .gap start (h.append ht)
  | child hgap place rest =>
    rw [← List.append_assoc]
    refine .child (h.append hgap) ?_ rest
    rw [place, List.length_append, Nat.add_assoc]

theorem append (hs : Tiled words start s cs) (ht : Tiled words (start + s.length) t ds) :
    Tiled words start (s ++ t) (cs ++ ds) := by
  induction hs with
  | gap start h => exact ht.behind h
  | child hgap place _ ih =>
    rw [List.append_assoc, List.append_assoc]
    refine .child hgap place (ih ?_)
    simpa [stop, place, Nat.add_assoc] using ht

/-- A child stands for the piece of the text at its offset. -/
theorem exists_split (h : Tiled words start s cs) {c : Node} (hc : c ∈ cs) :
    ∃ before after, s = before ++ (c.text ++ after) ∧ c.start = start + before.length := by
  induction h with
  | gap => cases hc
  | @child start s rest d ds _ place _ ih =>
    rcases List.mem_cons.mp hc with rfl | hc
    · exact ⟨_, _, rfl, place⟩
    · obtain ⟨before, after, rfl, there⟩ := ih hc
      refine ⟨s ++ (d.text ++ before), after, by simp only [List.append_assoc], ?_⟩
      simp only [there, stop, place, List.length_append]
      omega

theorem le_start (h : Tiled words start s cs) {c : Node} (hc : c ∈ cs) : start ≤ c.start := by
  obtain ⟨before, -, -, there⟩ := h.exists_split hc
  omega

theorem ordered (h : Tiled words start s cs) : cs.Pairwise fun c d => c.stop ≤ d.start := by
  induction h with
  | gap => exact .nil
  | child _ _ rest ih => exact .cons (fun d hd => rest.le_start hd) ih

end Tiled

/-- A word has no children. -/
theorem WellMade.word {kind : NodeKind} (h : kind ∈ NodeKind.words) (s : Text) (start : Nat) :
    (⟨kind, s, [], start⟩ : Node).WellMade := by
  refine .intro (.word h) ?_ (by simp)
  cases kind <;> first | rfl | exact absurd h (by decide)

/-- Well made nodes of these kinds, laid out in a text with the separators of the parent. -/
structure Row (parent : NodeKind) (start : Nat) (s : Text) (cs : List Node)
    (kinds : List NodeKind) : Prop where
  tiled : Tiled parent.separators start s cs
  kinds : cs.map Node.kind = kinds
  wellMade : ∀ c ∈ cs, c.WellMade

namespace Row

variable {parent : NodeKind} {start : Nat} {s t : Text} {cs ds : List Node}
variable {ks ls : List NodeKind}

theorem gap (start : Nat) (h : Text.RowOf parent.separators s) : Row parent start s [] [] :=
  ⟨.gap start h, rfl, by simp⟩

theorem nil (start : Nat) : Row parent start [] [] [] := gap start .nil

theorem one {c : Node} (h : c.WellMade) : Row parent c.start c.text [c] [c.kind] :=
  ⟨.one c, rfl, by simpa using h⟩

theorem word {kind : NodeKind} (h : kind ∈ NodeKind.words) (s : Text) (start : Nat) :
    Row parent start s [⟨kind, s, [], start⟩] [kind] :=
  one (WellMade.word h s start)

theorem append (hs : Row parent start s cs ks) (ht : Row parent (start + s.length) t ds ls) :
    Row parent start (s ++ t) (cs ++ ds) (ks ++ ls) where
  tiled := hs.tiled.append ht.tiled
  kinds := by rw [List.map_append, hs.kinds, ht.kinds]
  wellMade := List.forall_mem_append.mpr ⟨hs.wellMade, ht.wellMade⟩

theorem behind (h : Text.RowOf parent.separators s)
    (ht : Row parent (start + s.length) t cs ks) : Row parent start (s ++ t) cs ks :=
  (gap start h).append ht

/-- A node with such children is well made if the kinds fit and its own text is arranged. -/
theorem wellMade_parent {innerStart : Nat} (row : Row parent innerStart s cs ks)
    (kinds : parent.HasChildren ks) (arranged : (⟨parent, t, cs, start⟩ : Node).Arranged) :
    (⟨parent, t, cs, start⟩ : Node).WellMade := by
  refine .intro ?_ arranged row.wellMade
  rw [row.kinds]
  exact kinds

end Row

end Node

namespace Form

open Node

namespace Input

theorem mark_row (x : Form.Input) (start : Nat) : Row .input start x.markText
    (x.markNodes start) (NodeKind.optionally x.mark.isSome .inputModifier) := by
  cases hm : x.mark with
  | none =>
    simp only [markText, markNodes, hm, Option.elim]
    exact .nil start
  | some m =>
    simp only [markText, markNodes, hm, Option.elim]
    exact .word (by decide) m.text start

theorem key_row (x : Form.Input) (start : Nat) : Row .input start x.keyText
    (x.keyNodes start) (NodeKind.optionally x.key.isSome .selector) := by
  cases hk : x.key with
  | none =>
    simp only [keyText, keyNodes, hk, Option.elim]
    exact .nil start
  | some key =>
    simp only [keyText, keyNodes, hk, Option.elim]
    exact .behind (s := [':']) (.word (by decide)) (.word (by decide) key.text (start + 1))

theorem wellMade (x : Form.Input) (start : Nat) : (x.node start).WellMade := by
  have name : Row .input (start + x.markText.length) x.name.text _ [.inputName] :=
    .word (by decide) x.name.text _
  have row := (x.mark_row start).append (name.append (x.key_row _))
  exact row.wellMade_parent (.input _ _) row.tiled

end Input

namespace Inputs

theorem more_row (xs : List Form.Input) (start : Nat) : Row .inputs start (moreText xs)
    (moreNodes xs start) (List.replicate xs.length .input) := by
  induction xs generalizing start with
  | nil => exact .nil start
  | cons x xs ih =>
    have input : Row .inputs (start + 1) x.text [x.node (start + 1)] [.input] :=
      .one (x.wellMade (start + 1))
    have item : Row .inputs start ('|' :: x.text) [x.node (start + 1)] [.input] :=
      .behind (s := ['|']) (.word (by decide)) input
    exact item.append (ih _)

theorem wellMade (x : Form.Inputs) (start : Nat) : (x.node start).WellMade := by
  have first : Row .inputs start x.first.text [x.first.node start] [.input] :=
    .one (x.first.wellMade start)
  have row := first.append (more_row x.more _)
  exact row.wellMade_parent (.inputs x.more.length) row.tiled

end Inputs

namespace Test

/-- The kinds of the nodes of a test. -/
def kinds : Test → List NodeKind
  | named _ argument => .operatorName :: NodeKind.optionally argument.isSome .operatorArgument
  | implicit _ _ => [.operatorArgument]

theorem row (x : Test) (start : Nat) :
    Row .operator start x.text (x.nodes start) x.kinds := by
  cases x with
  | implicit argument starts => exact .word (by decide) argument.text start
  | named name argument =>
    have operatorName : Row .operator start name.text _ [.operatorName] :=
      .word (by decide) name.text start
    cases argument with
    | none => exact operatorName.append (.nil _)
    | some a =>
      obtain ⟨gap, argument⟩ := a
      have blanks : Text.RowOf NodeKind.operator.separators gap.text :=
        .blanks gap.toBlanks (by decide) (by decide)
      exact operatorName.append (.behind blanks (.word (by decide) argument.text _))

end Test

namespace Operator

theorem mark_row (x : Form.Operator) (start : Nat) : Row .operator start x.markText
    (x.markNodes start) (NodeKind.optionally x.negated .operatorNegation) := by
  cases hn : x.negated with
  | false =>
    simp only [markText, markNodes, hn]
    exact .nil start
  | true =>
    simp only [markText, markNodes, hn, if_true]
    exact .word (by decide) ['!'] start

theorem hasChildren (x : Form.Operator) : NodeKind.HasChildren .operator
    (NodeKind.optionally x.negated .operatorNegation ++ x.test.kinds) := by
  cases x.test with
  | named name argument => exact .named x.negated argument.isSome
  | implicit argument starts => exact .implicit x.negated

theorem wellMade (x : Form.Operator) (start : Nat) : (x.node start).WellMade := by
  have row := (x.mark_row (start + 1)).append (x.test.row _)
  refine row.wellMade_parent x.hasChildren ⟨x.inner, ?_, row.tiled⟩
  simp only [text, inner, List.append_assoc]

end Operator

namespace Action

theorem argument_row (x : Form.Action) (start : Nat) : Row .action start x.argumentText
    (x.argumentNodes start) (NodeKind.optionally x.argument.isSome .actionArgument) := by
  cases ha : x.argument with
  | none =>
    simp only [argumentText, argumentNodes, ha, Option.elim]
    exact .nil start
  | some a =>
    simp only [argumentText, argumentNodes, ha, Option.elim]
    exact .behind (s := [':']) (.word (by decide)) (.word (by decide) a.text (start + 1))

theorem wellMade (x : Form.Action) (start : Nat) : (x.node start).WellMade := by
  have name : Row .action start x.name.text _ [.actionName] := .word (by decide) x.name.text start
  have row := name.append (x.argument_row _)
  exact row.wellMade_parent (.action _) row.tiled

end Action

namespace Actions

theorem rowOf_blanks (b : Blanks) : Text.RowOf NodeKind.actions.separators b.text :=
  .blanks b (by decide) (by decide)

theorem next_row (x : NextAction) (start : Nat) : Row .actions start x.text
    [x.action.node (start + x.before.text.length + 1 + x.after.text.length)] [.action] := by
  have action : Row .actions (start + x.before.text.length + 1 + x.after.text.length)
      x.action.text _ [.action] := .one (x.action.wellMade _)
  have comma : Text.RowOf NodeKind.actions.separators [','] := .word (by decide)
  exact .behind (rowOf_blanks x.before) (.behind comma (.behind (rowOf_blanks x.after) action))

theorem more_row (xs : List NextAction) (start : Nat) : Row .actions start (moreText xs)
    (moreNodes xs start) (List.replicate xs.length .action) := by
  induction xs generalizing start with
  | nil => exact .nil start
  | cons x xs ih => exact (next_row x start).append (ih _)

/-- What stands between the quotes. -/
theorem exists_row (x : Form.Actions) (start : Nat) :
    ∃ inner, x.text = '"' :: (inner ++ ['"']) ∧
      Row .actions (start + 1) inner (x.nodes start) (List.replicate x.all.length .action) := by
  cases x with
  | empty blanks =>
    exact ⟨blanks.text, rfl, .gap _ (rowOf_blanks blanks)⟩
  | listed opening first more closing =>
    have action : Row .actions (start + 1 + opening.text.length) first.text _ [.action] :=
      .one (first.wellMade _)
    have list := (action.append (more_row more _)).append (.gap _ (rowOf_blanks closing))
    rw [List.append_nil, List.append_nil] at list
    refine ⟨opening.text ++ ((first.text ++ moreText more) ++ closing.text), by simp [text], ?_⟩
    simpa [all, List.replicate_succ, nodes] using Row.behind (rowOf_blanks opening) list

theorem wellMade (x : Form.Actions) (start : Nat) : (x.node start).WellMade := by
  obtain ⟨inner, whole, row⟩ := x.exists_row start
  exact row.wellMade_parent (.actions _) ⟨inner, whole, row.tiled⟩

end Actions

namespace Rule

theorem wellMade (x : Form.Rule) (start : Nat) : (x.node start).WellMade := by
  have blanks (b : Blanks) : Text.RowOf NodeKind.secRule.separators b.text :=
    .blanks b (by decide) (by decide)
  have word : Text.RowOf NodeKind.secRule.separators Grammar.directiveWord.toList :=
    .word (by decide)
  have inputs : Row .secRule (x.inputsStart start) x.inputs.text _ [.inputs] :=
    .one (x.inputs.wellMade _)
  have operator : Row .secRule (x.operatorStart start) x.operator.text _ [.operator] :=
    .one (x.operator.wellMade _)
  have actions : Row .secRule (x.actionsStart start) x.actions.text _ [.actions] :=
    .one (x.actions.wellMade _)
  have rear := actions.append (.gap _ (blanks x.trail))
  have middle := operator.append (.behind (blanks x.actionsGap.toBlanks) rear)
  have parts := inputs.append (.behind (blanks x.operatorGap.toBlanks) middle)
  have row := Row.behind (blanks x.lead) (.behind word (.behind (blanks x.gap.toBlanks) parts))
  exact row.wellMade_parent .secRule row.tiled

end Rule

end Form

/-- An expression that only says which words there are. -/
def Expr.IsWord : Expr → Bool
  | .literal _ => true
  | .token _ => true
  | .either e f => e.IsWord && f.IsWord
  | _ => false

/-- Reading a word makes no nodes. -/
theorem Expr.nodes_eq_nil_of_isWord {e : Expr} {start : Nat} {s : Text} {m : Match}
    (word : e.IsWord = true) (h : e.run start s = some m) : m.nodes = [] := by
  induction e generalizing m with
  | literal w =>
    simp only [run] at h
    split at h
    · cases h
      rfl
    · contradiction
  | token t =>
    obtain ⟨_, _, rfl⟩ := Option.map_eq_some_iff.mp h
    rfl
  | either e f ihe ihf =>
    obtain ⟨wordLeft, wordRight⟩ := Bool.and_eq_true_iff.mp word
    rcases Option.or_eq_some_iff.mp h with h | ⟨-, h⟩
    · exact ihe wordLeft h
    · exact ihf wordRight h
  | _ => contradiction

namespace Node

variable {kind : NodeKind} {s : Text} {root : Node}

/-- A text that is read is taken in full by the rule of the kind, which makes one node. -/
theorem run_of_parse (h : Node.parse kind s = .ok root) :
    ∃ m, (Grammar.production kind).body.run 0 s = some m ∧ m.taken = s ∧ m.rest = [] ∧
      root = ⟨kind, s, m.nodes, 0⟩ := by
  have text := text_of_parse_eq_ok h
  simp only [Node.parse] at h
  split at h
  · contradiction
  · rename_i m hm
    split at h
    · rename_i he
      cases h
      exact ⟨m, hm, text, List.isEmpty_iff.mp he, by rw [show m.taken = s from text]⟩
    · contradiction

theorem run_expr_of_parse (h : Node.parse kind s = .ok root) :
    (Grammar.production kind).expr.run 0 s = some ⟨[root], s, []⟩ := by
  obtain ⟨⟨nodes, taken, rest⟩, hm, rfl, rfl, rfl⟩ := run_of_parse h
  rw [Production.expr, Grammar.name_production, Expr.run, hm]
  rfl

theorem wellMade_of_parse_word (h : Node.parse kind s = .ok root) (word : kind ∈ NodeKind.words)
    (body : (Grammar.production kind).body.IsWord = true) : root.WellMade := by
  obtain ⟨m, hm, -, -, rfl⟩ := run_of_parse h
  rw [Expr.nodes_eq_nil_of_isWord body hm]
  exact .word word s 0

/-- The tree of a text is well made. -/
theorem wellMade_of_parse (h : Node.parse kind s = .ok root) : root.WellMade := by
  cases kind with
  | secRule =>
    obtain ⟨x, -, rfl⟩ := parse_secRule_eq_ok_iff.mp h
    exact x.wellMade 0
  | inputs =>
    obtain ⟨x, -, rfl⟩ := parse_inputs_eq_ok_iff.mp h
    exact x.wellMade 0
  | input =>
    obtain ⟨x, -, rfl⟩ := parse_input_eq_ok_iff.mp h
    exact x.wellMade 0
  | operator =>
    obtain ⟨x, -, rfl⟩ := parse_operator_eq_ok_iff.mp h
    exact x.wellMade 0
  | actions =>
    obtain ⟨x, -, rfl⟩ := parse_actions_eq_ok_iff.mp h
    exact x.wellMade 0
  | action =>
    obtain ⟨x, -, rfl⟩ := parse_action_eq_ok_iff.mp h
    exact x.wellMade 0
  | _ => exact wellMade_of_parse_word h (by decide) rfl

variable {n : Node}

/-- The children of a node are laid out in a piece of its text. -/
theorem Arranged.exists_tiled (h : n.Arranged) : ∃ words before inner after,
    n.text = before ++ (inner ++ after) ∧
      Tiled words (n.start + before.length) inner n.children := by
  obtain ⟨kind, text, children, start⟩ := n
  have plain {words : List Text} (tiled : Tiled words start text children) :
      ∃ words before inner after, text = before ++ (inner ++ after) ∧
        Tiled words (start + before.length) inner children :=
    ⟨words, [], text, [], by simp, tiled⟩
  have bare (none : children = []) : ∃ words before inner after,
      text = before ++ (inner ++ after) ∧ Tiled words (start + before.length) inner children :=
    ⟨[], text, [], [], by simp, none ▸ .nil _⟩
  cases kind with
  | secRule => exact plain h
  | inputs => exact plain h
  | input => exact plain h
  | action => exact plain h
  | operator =>
    obtain ⟨inner, whole, tiled⟩ := h
    exact ⟨_, ['"'], inner, ['"'], whole, tiled⟩
  | actions =>
    obtain ⟨inner, whole, tiled⟩ := h
    exact ⟨_, ['"'], inner, ['"'], whole, tiled⟩
  | _ => exact bare h

/-- A child stands for the piece of the text at its offset. -/
theorem Arranged.exists_split (h : n.Arranged) {c : Node} (hc : c ∈ n.children) :
    ∃ before after, n.text = before ++ (c.text ++ after) ∧
      c.start = n.start + before.length := by
  obtain ⟨words, lead, inner, trail, whole, tiled⟩ := h.exists_tiled
  obtain ⟨before, after, rfl, there⟩ := tiled.exists_split hc
  refine ⟨lead ++ before, after ++ trail, by simp [whole], ?_⟩
  rw [there, List.length_append, Nat.add_assoc]

theorem Arranged.inside (h : n.Arranged) {c : Node} (hc : c ∈ n.children) :
    n.start ≤ c.start ∧ c.stop ≤ n.stop := by
  obtain ⟨before, after, whole, there⟩ := h.exists_split hc
  have lengths := congrArg List.length whole
  simp only [List.length_append] at lengths
  simp only [stop]
  omega

theorem Arranged.ordered (h : n.Arranged) : n.children.Pairwise fun c d => c.stop ≤ d.start := by
  obtain ⟨_, _, _, _, _, tiled⟩ := h.exists_tiled
  exact tiled.ordered

/-- Every node of a well made tree is well made, and stands for a piece of the text. -/
theorem Contains.wellMade (made : root.WellMade) (h : root.Contains n) :
    n.WellMade ∧ ∃ before after,
      root.text = before ++ (n.text ++ after) ∧ n.start = root.start + before.length := by
  induction h with
  | root => exact ⟨made, [], [], by simp, rfl⟩
  | child _ hc ih =>
    obtain ⟨⟨_, arranged, below⟩, before, after, whole, there⟩ := ih
    obtain ⟨before', after', whole', there'⟩ := arranged.exists_split hc
    refine ⟨below _ hc, before ++ before', after' ++ after, by simp [whole, whole'], ?_⟩
    rw [there', there, List.length_append, Nat.add_assoc]

theorem shapedIn_of_parse (h : Node.parse kind s = .ok root) (contained : root.Contains n) :
    n.ShapedIn s := by
  obtain ⟨made, before, after, whole, there⟩ := contained.wellMade (wellMade_of_parse h)
  obtain ⟨m, -, -, -, rfl⟩ := run_of_parse h
  obtain ⟨kinds, arranged, -⟩ := made
  have start : n.start = before.length := by simpa using there
  have slice : n.text = (s.drop n.start).take n.text.length := by
    rw [show s = before ++ (n.text ++ after) from whole, start, List.drop_left, List.take_left]
  exact ⟨slice, fun _ => arranged.inside, arranged.ordered, kinds, arranged⟩

/-- Reading a text makes one node, which is of the wanted kind and stands for the whole text,
and every node of its tree has the shape of its kind and is at its place in the text. -/
theorem parse_shape (h : Node.parse kind s = .ok root) :
    ((Grammar.production kind).expr.run 0 s = some ⟨[root], s, []⟩ ∧
      root.kind = kind ∧ root.start = 0 ∧ root.text = s) ∧
    ∀ n, root.Contains n → n.ShapedIn s := by
  refine ⟨⟨run_expr_of_parse h, kind_of_parse_eq_ok h, ?_, text_of_parse_eq_ok h⟩,
    fun n => shapedIn_of_parse h⟩
  obtain ⟨m, -, -, -, rfl⟩ := run_of_parse h
  rfl

/-- The rules around the name and the argument have no kind, so both are children of the
operator. -/
theorem parse_shape_of_operator :
    ∃ root, Node.parse .operator "\"!@rx  x y\"".toList = .ok root ∧
      root.children.map (fun c => (c.start, c.text)) =
        [(1, ['!']), (2, ['@', 'r', 'x']), (7, ['x', ' ', 'y'])] ∧
      ∀ n, root.Contains n → n.ShapedIn "\"!@rx  x y\"".toList := by
  have children : (Node.parse .operator "\"!@rx  x y\"".toList).toOption.map
      (fun root => root.children.map fun c => (c.start, c.text)) =
        some [(1, ['!']), (2, ['@', 'r', 'x']), (7, ['x', ' ', 'y'])] := by decide +kernel
  cases h : Node.parse .operator "\"!@rx  x y\"".toList with
  | error e =>
    rw [h] at children
    contradiction
  | ok root =>
    rw [h] at children
    exact ⟨root, rfl, Option.some.inj children, (parse_shape h).2⟩

end Node

end WafRules
