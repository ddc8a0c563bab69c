import WafRules.Proofs.Canonical
import WafRules.Proofs.RuleParts

/-!
# Lists element by element

The inputs of a rule are the pieces between the bars, because no input has a bar in it. So
they are read one by one, and the grammar accepts them if it accepts each piece.

The actions are not the pieces between the commas: an argument between single quotes may hold
commas, blanks and double quotes. But accepted actions may be put together, with any blanks
around the commas and inside the outer quotes, and what comes out is read one by one. A text
that is accepted is put together in this way from one row of actions only.
-/

namespace WafRules

namespace Form

theorem Input.bar_not_mem (x : Form.Input) : '|' ∉ x.text := by
  intro h
  rcases Input.mem_text h with mark | word | key
  · exact absurd mark (by decide)
  · exact absurd word (by decide)
  · exact absurd key (by decide)

theorem Inputs.text_eq_intercalate (x : Form.Inputs) :
    x.text = ['|'].intercalate (x.all.map Input.text) := by
  rw [all, List.map_cons, intercalate_cons, List.flatMap_map]
  rfl

/-- The pieces between the bars are the inputs. -/
theorem Inputs.splitOn_text (x : Form.Inputs) : x.text.splitOn '|' = x.all.map Input.text := by
  have noBar : ∀ piece ∈ x.all.map Input.text, '|' ∉ piece := by
    intro piece hpiece
    obtain ⟨y, -, rfl⟩ := List.mem_map.mp hpiece
    exact y.bar_not_mem
  rw [text_eq_intercalate]
  exact List.splitOn_intercalate '|' noBar (by simp [all])

theorem exists_inputs_iff_pieces {s : Text} :
    (∃ x : Form.Inputs, x.text = s) ↔
      ∀ piece ∈ s.splitOn '|', ∃ y : Form.Input, y.text = piece := by
  constructor
  · rintro ⟨x, rfl⟩ piece hpiece
    rw [x.splitOn_text] at hpiece
    obtain ⟨y, -, hy⟩ := List.mem_map.mp hpiece
    exact ⟨y, hy⟩
  · intro pieces
    obtain ⟨ys, hys⟩ := exists_map_eq_map (g := id) pieces
    rw [List.map_id] at hys
    cases ys with
    | nil => exact absurd hys.symm (List.splitOn_ne_nil '|' s)
    | cons y ys =>
      refine ⟨⟨y, ys⟩, ?_⟩
      rw [Inputs.text_eq_intercalate]
      exact (congrArg ['|'].intercalate hys).trans (List.intercalate_splitOn '|')

end Form

/-- A text is accepted or rejected. -/
theorem Node.exists_error_iff {kind : NodeKind} {s : Text} :
    (∃ e, Node.parse kind s = .error e) ↔ ¬ ∃ node, Node.parse kind s = .ok node := by
  cases Node.parse kind s <;> simp

namespace Inputs

variable {s : Text}

theorem accepted_iff_pieces : (∃ node, Node.parse .inputs s = .ok node) ↔
    ∀ piece ∈ s.splitOn '|', ∃ node, Node.parse .input piece = .ok node := by
  simp only [Node.parse_inputs_eq_ok_iff, Node.parse_input_eq_ok_iff]
  constructor
  · rintro ⟨_, x, hx, -⟩ piece hpiece
    obtain ⟨y, hy⟩ := Form.exists_inputs_iff_pieces.mp ⟨x, hx⟩ piece hpiece
    exact ⟨_, y, hy, rfl⟩
  · intro pieces
    obtain ⟨x, hx⟩ := Form.exists_inputs_iff_pieces.mpr fun piece hpiece => by
      obtain ⟨_, y, hy, -⟩ := pieces piece hpiece
      exact ⟨y, hy⟩
    exact ⟨_, x, hx, rfl⟩

/-- Inputs whose pieces are accepted are read piece by piece. -/
theorem parse_eq_mapM_pieces
    (accepted : ∀ piece ∈ s.splitOn '|', ∃ node, Node.parse .input piece = .ok node) :
    (Model.parse s : Except ReadError (List Input)) = (s.splitOn '|').mapM Model.parse := by
  obtain ⟨node, h⟩ := accepted_iff_pieces.mpr accepted
  obtain ⟨x, rfl, -⟩ := Node.parse_inputs_eq_ok_iff.mp h
  rw [x.parse_text, x.splitOn_text, List.mapM_map, Form.Inputs.value, ← mapM_mapError]
  exact congrArg (List.mapM · x.all) (funext fun y => y.parse_text.symm)

/-- What the grammar accepts can only have a fault. -/
theorem rejected_iff : (∃ e, (Model.parse s : Except ReadError (List Input)) =
    .error (.rejected e)) ↔ ∃ e, Node.parse .inputs s = .error e := by
  constructor
  · rintro ⟨e, h⟩
    rw [Node.exists_error_iff]
    rintro ⟨node, accepted⟩
    obtain ⟨x, rfl, -⟩ := Node.parse_inputs_eq_ok_iff.mp accepted
    rw [x.parse_text] at h
    obtain ⟨f, -, fault⟩ := mapError_eq_error_iff.mp h
    contradiction
  · rintro ⟨e, h⟩
    exact ⟨e, Model.parse_eq_rejected h⟩

/-- Inputs are rejected if one of the pieces is. -/
theorem rejected_iff_piece :
    (∃ e, (Model.parse s : Except ReadError (List Input)) = .error (.rejected e)) ↔
      ∃ piece ∈ s.splitOn '|', ∃ e, Node.parse .input piece = .error e := by
  simp only [rejected_iff, Node.exists_error_iff, accepted_iff_pieces, Classical.not_forall,
    exists_prop]

end Inputs

namespace Actions

/-- An accepted action behind a comma, with the blanks on both sides of the comma. -/
structure Behind where
  before : Form.Blanks
  after : Form.Blanks
  action : Accepted .action

def Behind.text (x : Behind) : Text :=
  x.before.text ++ (',' :: (x.after.text ++ x.action.text))

/-- Accepted actions put together, or none. Blanks may stand behind the opening quote, around
the commas and in front of the closing quote. -/
structure Layout where
  opening : Form.Blanks
  list : Option (Accepted .action × List Behind)
  closing : Form.Blanks

namespace Layout

def elements (x : Layout) : List (Accepted .action) :=
  x.list.elim [] fun (first, more) => first :: more.map Behind.action

def listText (x : Layout) : Text :=
  x.list.elim [] fun (first, more) => first.text ++ more.flatMap Behind.text

def text (x : Layout) : Text :=
  '"' :: (x.opening.text ++ (x.listText ++ (x.closing.text ++ ['"'])))

end Layout

end Actions

namespace Form

/-- The text of an action is accepted. -/
def Action.accept (x : Form.Action) : Accepted .action :=
  ⟨x.text, _, Node.parse_action_eq_ok_iff.mpr ⟨x, rfl, rfl⟩⟩

theorem Action.exists_accept (a : Accepted .action) : ∃ x : Form.Action, x.accept = a := by
  obtain ⟨_, _, h⟩ := a
  obtain ⟨x, rfl, -⟩ := Node.parse_action_eq_ok_iff.mp h
  exact ⟨x, rfl⟩

def NextAction.behind (x : NextAction) : WafRules.Actions.Behind :=
  ⟨x.before, x.after, x.action.accept⟩

theorem NextAction.exists_behind (b : WafRules.Actions.Behind) :
    ∃ x : NextAction, x.behind = b := by
  obtain ⟨before, after, action⟩ := b
  obtain ⟨x, rfl⟩ := Action.exists_accept action
  exact ⟨⟨before, after, x⟩, rfl⟩

namespace Actions

def layout : Form.Actions → WafRules.Actions.Layout
  | empty blanks => ⟨blanks, none, .none⟩
  | listed opening first more closing =>
    ⟨opening, some (first.accept, more.map NextAction.behind), closing⟩

theorem text_layout (x : Form.Actions) : x.layout.text = x.text := by
  cases x with
  | empty blanks => rfl
  | listed opening first more closing =>
    simp only [WafRules.Actions.Layout.text, WafRules.Actions.Layout.listText, layout, text,
      moreText, Option.elim, List.flatMap_map]
    rfl

theorem elements_layout (x : Form.Actions) : x.layout.elements = x.all.map Action.accept := by
  cases x with
  | empty blanks => rfl
  | listed opening first more closing =>
    simp only [WafRules.Actions.Layout.elements, layout, all, Option.elim, List.map_cons,
      List.map_map]
    rfl

/-- The tree of the actions has the elements in it. -/
theorem map_text_nodes (x : Form.Actions) (start : Nat) :
    (x.nodes start).map Node.text = x.all.map Action.text := by
  have later (more : List NextAction) (start : Nat) :
      (moreNodes more start).map Node.text = (more.map NextAction.action).map Action.text := by
    induction more generalizing start with
    | nil => rfl
    | cons next more ih => exact congrArg (next.action.text :: ·) (ih _)
  cases x with
  | empty blanks => rfl
  | listed opening first more closing => exact congrArg (first.text :: ·) (later more _)

end Actions

end Form

namespace Actions.Layout

/-- Accepted actions have forms, and so have the texts that are made of them. -/
theorem exists_form (x : Layout) :
    ∃ y : Form.Actions, y.text = x.text ∧ y.all.map Form.Action.accept = x.elements := by
  obtain ⟨opening, list, closing⟩ := x
  cases list with
  | none =>
    have blank : ∀ c ∈ opening.text ++ closing.text, isBlank c = true := by
      intro c hc
      rcases List.mem_append.mp hc with hc | hc
      · exact opening.blank c hc
      · exact closing.blank c hc
    exact ⟨.empty ⟨_, blank⟩, by simp [Form.Actions.text, text, listText], rfl⟩
  | some listed =>
    obtain ⟨first, more⟩ := listed
    obtain ⟨y, rfl⟩ := Form.Action.exists_accept first
    obtain ⟨ys, hys⟩ := exists_map_eq_map (f := Form.NextAction.behind) (g := id)
      fun b (_ : b ∈ more) => Form.NextAction.exists_behind b
    rw [List.map_id] at hys
    subst hys
    let form : Form.Actions := .listed opening y ys closing
    exact ⟨form, form.text_layout.symm, form.elements_layout.symm⟩

/-- Put together from accepted actions, a text is read action by action. -/
theorem parse_text (x : Layout) : (Model.parse x.text : Except ReadError (List Action)) =
    (x.elements.map Accepted.text).mapM Model.parse := by
  obtain ⟨y, text, elements⟩ := x.exists_form
  rw [← text, ← elements, y.parse_text, List.map_map, List.mapM_map, Form.Actions.value,
    ← mapM_mapError]
  exact congrArg (List.mapM · y.all) (funext fun a => a.parse_text.symm)

/-- The text tells the elements, because it has one tree. -/
theorem elements_eq_of_text_eq {x y : Layout} (h : x.text = y.text) : x.elements = y.elements := by
  obtain ⟨u, uText, uElements⟩ := x.exists_form
  obtain ⟨v, vText, vElements⟩ := y.exists_form
  have one : Node.parse .actions u.text = .ok (u.node 0) :=
    Node.parse_actions_eq_ok_iff.mpr ⟨u, rfl, rfl⟩
  have other : Node.parse .actions u.text = .ok (v.node 0) :=
    Node.parse_actions_eq_ok_iff.mpr ⟨v, by rw [uText, vText, h], rfl⟩
  have tree : u.node 0 = v.node 0 := Except.ok.inj (one.symm.trans other)
  have texts : u.all.map Form.Action.text = v.all.map Form.Action.text := by
    rw [← u.map_text_nodes 0, ← v.map_text_nodes 0]
    exact congrArg (fun node : Node => node.children.map Node.text) tree
  rw [← uElements, ← vElements]
  have same : (u.all.map Form.Action.accept).map Accepted.text =
      (v.all.map Form.Action.accept).map Accepted.text := by
    simp only [List.map_map]
    exact texts
  exact (List.map_inj_right fun _ _ => Accepted.ext).mp same

theorem exists_text_eq_iff {s : Text} :
    (∃ x : Layout, x.text = s) ↔ ∃ node, Node.parse .actions s = .ok node := by
  constructor
  · rintro ⟨x, rfl⟩
    obtain ⟨y, text, -⟩ := x.exists_form
    exact ⟨_, Node.parse_actions_eq_ok_iff.mpr ⟨y, text, rfl⟩⟩
  · rintro ⟨node, h⟩
    obtain ⟨y, rfl, -⟩ := Node.parse_actions_eq_ok_iff.mp h
    exact ⟨y.layout, y.text_layout⟩

end Actions.Layout

/-- Inputs are rejected if and only if a piece between bars is, and are read piece by piece
otherwise. Actions that are put together from accepted ones are read one by one, and accepted
texts are put together from one row of actions only. The first error decides in both lists. -/
theorem lists_parse_by_elements :
    (∀ s, (∃ e, (Model.parse s : Except ReadError (List Input)) = .error (.rejected e)) ↔
      ∃ piece ∈ s.splitOn '|', ∃ e, Node.parse .input piece = .error e) ∧
    (∀ s, (∀ piece ∈ s.splitOn '|', ∃ node, Node.parse .input piece = .ok node) →
      (Model.parse s : Except ReadError (List Input)) = (s.splitOn '|').mapM Model.parse) ∧
    (∀ x : Actions.Layout, (Model.parse x.text : Except ReadError (List Action)) =
      (x.elements.map Accepted.text).mapM Model.parse) ∧
    ∀ s, (∃ node, Node.parse .actions s = .ok node) ↔
      ∃ x : Actions.Layout, x.text = s ∧
        ∀ y : Actions.Layout, y.text = s → y.elements = x.elements := by
  refine ⟨fun s => Inputs.rejected_iff_piece, fun s => Inputs.parse_eq_mapM_pieces,
    Actions.Layout.parse_text, fun s => ?_⟩
  rw [← Actions.Layout.exists_text_eq_iff]
  constructor
  · rintro ⟨x, rfl⟩
    exact ⟨x, rfl, fun y h => Actions.Layout.elements_eq_of_text_eq h⟩
  · rintro ⟨x, hx, -⟩
    exact ⟨x, hx⟩

/-- The comma and the quote between the single quotes separate nothing. -/
example : (Model.parse "\" id:1 ,\tmsg:'a, \" b' \"".toList :
    Except ReadError (List Action)).toOption =
      some [⟨.id, some ['1']⟩, ⟨.msg, some "a, \" b".toList⟩] := by decide +kernel

end WafRules
