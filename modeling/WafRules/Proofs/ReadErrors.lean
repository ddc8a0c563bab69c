import WafRules.Proofs.Canonical

/-!
# Why a text is not a rule

The errors that reading a rule can end in, said of the written form of the text. A form has
a fault where a name is unknown, or where a mark is left without the key that it needs. Of
all faults the one counts that comes first: the inputs come before the operator, this comes
before the actions, and in a list the leftmost item with a fault decides.

A text without a form is rejected by the grammar. Faults of a tree that no form has, such as
a missing node, do not come up.
-/

namespace WafRules

namespace Form

/-- No variable has the name, or the variable is excluded without a key. -/
inductive Input.HasFault (x : Form.Input) : Fault → Prop
  | unknown : (∀ v : Variable, Vocabulary.text v ≠ x.name.text) →
      x.HasFault (.unknownInput x.name.text)
  | keyless (v : Variable) : Vocabulary.text v = x.name.text → x.mark = some .exclamation →
      x.key = none → x.HasFault (.invalidSelector x.text)

/-- An operator is named, and no operator has the name. -/
inductive Operator.HasFault (x : Form.Operator) : Fault → Prop
  | unknown {name : Token.Word .operatorName} {argument : Option (Gap × Argument)} :
      x.test = .named name argument →
      (∀ o : OperatorName, Vocabulary.text o ≠ name.text.drop 1) →
      x.HasFault (.unknownOperator (name.text.drop 1) x.text)

/-- No action has the name. -/
inductive Action.HasFault (x : Form.Action) : Fault → Prop
  | unknown : (∀ a : ActionName, Vocabulary.text a ≠ x.name.text) →
      x.HasFault (.unknownAction x.name.text x.text)

/-- The leftmost item with a fault has this one. -/
def FirstFault {α : Type} (HasFault : α → Fault → Prop) (xs : List α) (e : Fault) : Prop :=
  ∃ before x after, xs = before ++ x :: after ∧ HasFault x e ∧ ∀ y ∈ before, ∀ e', ¬ HasFault y e'

/-- The error of a rule: its first fault, and the part that has it. -/
inductive Rule.HasError (x : Form.Rule) : ReadError → Prop
  | inputs {e : Fault} : FirstFault Input.HasFault x.inputs.all e →
      x.HasError (.part .inputs e)
  | operator {e : Fault} : (∀ y ∈ x.inputs.all, ∀ e', ¬ y.HasFault e') →
      x.operator.HasFault e → x.HasError (.part .operator e)
  | actions {e : Fault} : (∀ y ∈ x.inputs.all, ∀ e', ¬ y.HasFault e') →
      (∀ e', ¬ x.operator.HasFault e') → FirstFault Action.HasFault x.actions.all e →
      x.HasError (.part .actions e)

end Form

theorem Vocabulary.ofText?_eq_none_iff {α : Type} [Vocabulary α] {s : Text} :
    (ofText? s : Option α) = none ↔ ∀ a : α, text a ≠ s := by
  constructor
  · rintro unknown a rfl
    rw [ofText?_text] at unknown
    contradiction
  · intro unknown
    cases known : (ofText? s : Option α) with
    | none => rfl
    | some a => exact absurd (text_of_ofText?_eq_some known) (unknown a)

namespace Form

/-- The only mark that needs a key is the one that excludes it. -/
theorem ofWritten_eq_error {mark : Option Mark} {key : Option (Token.Word .key)} {s : Text}
    {e : Fault}
    (h : Selector.ofWritten (mark.map Mark.text) (key.map Token.Word.text) s = .error e) :
    mark = some .exclamation ∧ key = none ∧ e = .invalidSelector s := by
  cases key with
  | none =>
    cases mark with
    | none => cases h
    | some m =>
      cases m with
      | exclamation => cases h; exact ⟨rfl, rfl, rfl⟩
      | ampersand => cases h
  | some word =>
    let key : Key := ⟨word.text, word.language.1⟩
    cases mark with
    | none => exact absurd ((ofWritten_of_key key s (some .whole) .only).symm.trans h) (by simp)
    | some m =>
      cases m with
      | exclamation =>
        exact absurd ((ofWritten_of_key key s none .without).symm.trans h) (by simp)
      | ampersand =>
        exact absurd ((ofWritten_of_key key s (some .countAll) .count).symm.trans h) (by simp)

theorem Input.value_eq_error_iff {x : Form.Input} {e : Fault} :
    x.value = .error e ↔ x.HasFault e := by
  constructor
  · intro h
    simp only [value] at h
    split at h
    · rename_i unknown
      cases h
      exact .unknown (Vocabulary.ofText?_eq_none_iff.mp unknown)
    · rename_i v known
      have name := Vocabulary.text_of_ofText?_eq_some known
      cases hs : Selector.ofWritten (x.mark.map Mark.text) (x.key.map Token.Word.text) x.text with
      | ok selector => rw [hs] at h; cases h
      | error e' =>
        rw [hs] at h
        cases h
        obtain ⟨mark, key, rfl⟩ := ofWritten_eq_error hs
        exact .keyless v name mark key
  · intro h
    cases h with
    | unknown unknown => simp [value, Vocabulary.ofText?_eq_none_iff.mpr unknown]
    | keyless v name mark key =>
      simp [value, ← name, mark, key]
      rfl

theorem Operator.value_eq_error_iff {x : Form.Operator} {e : Fault} :
    x.value = .error e ↔ x.HasFault e := by
  obtain ⟨negated, test⟩ := x
  constructor
  · intro h
    cases test with
    | implicit argument starts => cases h
    | named name argument =>
      simp only [value] at h
      split at h
      · rename_i unknown
        cases h
        exact .unknown rfl (Vocabulary.ofText?_eq_none_iff.mp unknown)
      · cases h
  · intro h
    cases h with
    | unknown test unknown =>
      cases test
      simp [value, Vocabulary.ofText?_eq_none_iff.mpr unknown, -List.drop_one]

theorem Action.value_eq_error_iff {x : Form.Action} {e : Fault} :
    x.value = .error e ↔ x.HasFault e := by
  constructor
  · intro h
    simp only [value] at h
    split at h
    · rename_i unknown
      cases h
      exact .unknown (Vocabulary.ofText?_eq_none_iff.mp unknown)
    · cases h
  · intro h
    cases h with
    | unknown unknown => simp [value, Vocabulary.ofText?_eq_none_iff.mpr unknown]

section FirstFault

variable {α β : Type} {HasFault : α → Fault → Prop} {f : α → Except Fault β} {xs : List α}
  {e : Fault}

/-- Items that are computed one by one fail with the first fault. -/
theorem mapM_eq_error_iff (faults : ∀ x e, f x = .error e ↔ HasFault x e) :
    xs.mapM f = .error e ↔ FirstFault HasFault xs e := by
  simp only [mapM_eq_error_iff_exists, FirstFault, exists_eq_ok_iff, ne_eq, faults]

theorem exists_mapM_eq_ok_iff (faults : ∀ x e, f x = .error e ↔ HasFault x e) :
    (∃ ys, xs.mapM f = .ok ys) ↔ ∀ x ∈ xs, ∀ e, ¬ HasFault x e := by
  rw [exists_mapM_eq_ok_iff_forall]
  simp only [exists_eq_ok_iff, ne_eq, faults]

end FirstFault

theorem Inputs.exists_value_iff {x : Form.Inputs} :
    (∃ is, x.value = .ok is) ↔ ∀ y ∈ x.all, ∀ e, ¬ y.HasFault e :=
  exists_mapM_eq_ok_iff fun _ _ => Input.value_eq_error_iff

theorem Inputs.value_eq_error_iff {x : Form.Inputs} {e : Fault} :
    x.value = .error e ↔ FirstFault Input.HasFault x.all e :=
  mapM_eq_error_iff fun _ _ => Input.value_eq_error_iff

theorem Operator.exists_value_iff {x : Form.Operator} :
    (∃ o, x.value = .ok o) ↔ ∀ e, ¬ x.HasFault e := by
  simp only [exists_eq_ok_iff, ne_eq, value_eq_error_iff]

theorem Actions.value_eq_error_iff {x : Form.Actions} {e : Fault} :
    x.value = .error e ↔ FirstFault Action.HasFault x.all e :=
  mapM_eq_error_iff fun _ _ => Action.value_eq_error_iff

theorem Rule.value_eq_error_iff {x : Form.Rule} {e : ReadError} :
    x.value = .error e ↔ x.HasError e := by
  simp only [value_eq_error_iff_first, Inputs.value_eq_error_iff, Inputs.exists_value_iff,
    Operator.value_eq_error_iff, Operator.exists_value_iff, Actions.value_eq_error_iff]
  constructor
  · rintro (⟨f, rfl, hi⟩ | ⟨f, rfl, hi, ho⟩ | ⟨f, rfl, hi, ho, ha⟩)
    · exact .inputs hi
    · exact .operator hi ho
    · exact .actions hi ho ha
  · intro h
    cases h with
    | inputs hi => exact .inl ⟨_, rfl, hi⟩
    | operator hi ho => exact .inr (.inl ⟨_, rfl, hi, ho⟩)
    | actions hi ho ha => exact .inr (.inr ⟨_, rfl, hi, ho, ha⟩)

/-- The errors that forms have. -/
theorem Rule.HasError.mem {x : Form.Rule} {e : ReadError} (h : x.HasError e) :
    (∃ name, e = .part .inputs (.unknownInput name)) ∨
    (∃ text, e = .part .inputs (.invalidSelector text)) ∨
    (∃ name text, e = .part .operator (.unknownOperator name text)) ∨
    ∃ name text, e = .part .actions (.unknownAction name text) := by
  cases h with
  | inputs first =>
    obtain ⟨_, y, _, _, fault, _⟩ := first
    cases fault with
    | unknown _ => exact .inl ⟨_, rfl⟩
    | keyless _ _ _ _ => exact .inr (.inl ⟨_, rfl⟩)
  | operator _ fault =>
    cases fault
    exact .inr (.inr (.inl ⟨_, _, rfl⟩))
  | actions _ _ first =>
    obtain ⟨_, y, _, _, fault, _⟩ := first
    cases fault
    exact .inr (.inr (.inr ⟨_, _, rfl⟩))

end Form

namespace Rule

variable {s : Text}

/-- The grammar rejects the texts that it does not describe. -/
theorem parse_rejected_iff :
    (∃ e, (Model.parse s : Except ReadError Rule) = .error (.rejected e)) ↔
      ¬ (Grammar.production .secRule).body.Describes s [] := by
  constructor
  · rintro ⟨e, h⟩ described
    obtain ⟨x, rfl⟩ := Form.exists_rule described
    rw [x.parse_text] at h
    cases Form.Rule.value_eq_error_iff.mp h
  · intro undescribed
    cases tree : Node.parse .secRule s with
    | error e => exact ⟨e, Model.parse_eq_rejected tree⟩
    | ok node => exact absurd (Node.describes_of_parse tree) undescribed

/-- What a text cannot be read for is rejected by the grammar, or a fault of its form. -/
theorem rejected_or_hasError_of_parse {e : ReadError}
    (h : (Model.parse s : Except ReadError Rule) = .error e) :
    (∃ error, e = .rejected error) ∨ ∃ x : Form.Rule, x.text = s ∧ x.HasError e := by
  by_cases described : (Grammar.production .secRule).body.Describes s []
  · obtain ⟨x, rfl⟩ := Form.exists_rule described
    rw [x.parse_text] at h
    exact .inr ⟨x, rfl, Form.Rule.value_eq_error_iff.mp h⟩
  · obtain ⟨error, rejected⟩ := parse_rejected_iff.mpr described
    exact .inl ⟨error, Except.error.inj (h.symm.trans rejected)⟩

/-- How the reading of a text ends: the grammar rejects it, or its form has a first fault, or
it is a rule. -/
theorem parse_classified (s : Text) :
    ((∃ e, (Model.parse s : Except ReadError Rule) = .error (.rejected e)) ↔
      ¬ (Grammar.production .secRule).body.Describes s []) ∧
    ((Grammar.production .secRule).body.Describes s [] →
      ∃ x : Form.Rule, x.text = s ∧ Node.parse .secRule s = .ok (x.node 0)) ∧
    (∀ x : Form.Rule, x.text = s →
      (∀ e, (Model.parse s : Except ReadError Rule) = .error e ↔ x.HasError e) ∧
      ((∃ r : Rule, Model.parse s = .ok r) ↔ ∀ e, ¬ x.HasError e)) ∧
    (∀ e, (Model.parse s : Except ReadError Rule) = .error e →
      (∃ error, e = .rejected error) ∨
      (∃ name, e = .part .inputs (.unknownInput name)) ∨
      (∃ text, e = .part .inputs (.invalidSelector text)) ∨
      (∃ name text, e = .part .operator (.unknownOperator name text)) ∨
      ∃ name text, e = .part .actions (.unknownAction name text)) ∧
    ∀ r : Rule, Model.parse s = .ok r → ∀ i ∈ r.inputs,
      Selector.make i.selector.kind i.selector.keyText? = .ok i.selector := by
  refine ⟨parse_rejected_iff, fun described => ?_, ?_, fun e h => ?_, fun r _ i _ => ?_⟩
  · obtain ⟨x, rfl⟩ := Form.exists_rule described
    exact ⟨x, rfl, Node.parse_secRule_eq_ok_iff.mpr ⟨x, rfl, rfl⟩⟩
  · rintro x rfl
    rw [x.parse_text]
    constructor
    · intro e
      exact Form.Rule.value_eq_error_iff
    · simp only [exists_eq_ok_iff, ne_eq, Form.Rule.value_eq_error_iff]
  · rcases rejected_or_hasError_of_parse h with rejected | ⟨x, -, fault⟩
    · exact .inl rejected
    · exact .inr fault.mem
  · exact i.selector.make_kind_keyText?

end Rule

end WafRules
