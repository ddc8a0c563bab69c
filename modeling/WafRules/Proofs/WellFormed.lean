import WafRules.Proofs.FormValue

/-!
# Well-formed and readable values

A value may be put together from any texts. It is well formed if these texts can stand
where the canonical text puts them, and readable if some text at all is read as it. The two
differ in the arguments of actions alone: an argument may stand bare in a rule although it
is written back between quotes.

Every value of a form is readable. Here is nothing about canonical texts.
-/

namespace WafRules

/-- The key has no bar and no white space in it. -/
def Input.WellFormed (i : Input) : Prop :=
  ∀ key ∈ i.selector.keyText?, ∀ c ∈ key, c ≠ '|' ∧ isWhiteSpace c = false

def Inputs.WellFormed (is : List Input) : Prop := is ≠ [] ∧ ∀ i ∈ is, i.WellFormed

/-- The argument does not begin with a blank and is escaped for the double quote. -/
def Operator.WellFormed (o : Operator) : Prop :=
  (∀ c ∈ o.argument.head?, isBlank c = false) ∧ Escaped '"' o.argument

/-- The argument is written bare, or is escaped for the single quote. -/
def Action.WellFormed (a : Action) : Prop :=
  ∀ s ∈ a.argument, (s ≠ [] ∧ ∀ c ∈ s, isPlainChar c = true) ∨ Escaped '\'' s

/-- The argument can be read bare, or is escaped for the single quote. -/
def Action.Readable (a : Action) : Prop :=
  ∀ s ∈ a.argument, (s ≠ [] ∧ ∀ c ∈ s, isBareChar c = true) ∨ Escaped '\'' s

def Actions.WellFormed (as : List Action) : Prop := ∀ a ∈ as, a.WellFormed

def Actions.Readable (as : List Action) : Prop := ∀ a ∈ as, a.Readable

theorem Actions.wellFormed_cons {a : Action} {as : List Action} :
    WellFormed (a :: as) ↔ a.WellFormed ∧ WellFormed as :=
  List.forall_mem_cons

theorem Actions.readable_cons {a : Action} {as : List Action} :
    Readable (a :: as) ↔ a.Readable ∧ Readable as :=
  List.forall_mem_cons

structure Rule.WellFormed (r : Rule) : Prop where
  inputs : Inputs.WellFormed r.inputs
  operator : r.operator.WellFormed
  actions : Actions.WellFormed r.actions

structure Rule.Readable (r : Rule) : Prop where
  inputs : Inputs.WellFormed r.inputs
  operator : r.operator.WellFormed
  actions : Actions.Readable r.actions

theorem isBareChar_of_isPlainChar {c : Char} (h : isPlainChar c = true) : isBareChar c = true := by
  simp only [isPlainChar, isBareChar, Bool.and_eq_true, Bool.not_eq_true'] at h ⊢
  refine ⟨h.1, ?_⟩
  cases hw : isWhiteSpace c with
  | false => rfl
  | true =>
    rw [isSpaceOrSeparator_of_isWhiteSpace hw] at h
    exact absurd h.2 (by decide)

/-- A readable rule is well formed as soon as its actions are. -/
theorem Rule.Readable.wellFormed {r : Rule} (h : r.Readable)
    (actions : Actions.WellFormed r.actions) : r.WellFormed :=
  ⟨h.inputs, h.operator, actions⟩

namespace Form

theorem selector_of_withKey (bare : Option Selector) (make : Key → Selector) {k s : Text}
    {selector : Selector}
    (h : Selector.ofWritten.withKey (some k) s bare make = .ok selector) :
    ∃ hk : k ≠ [], selector = make ⟨k, hk⟩ := by
  by_cases hk : k = []
  · simp [Selector.ofWritten.withKey, Key.ofText?, hk] at h
  · simp only [Selector.ofWritten.withKey, Key.ofText?, hk, dite_false, Option.elim,
      Except.ok.injEq] at h
    exact ⟨hk, h.symm⟩

/-- The mark and the key of an input are those of its selector. -/
theorem selector_of_ofWritten {mark : Option Mark} {key : Option Text} {s : Text}
    {selector : Selector} (h : Selector.ofWritten (mark.map Mark.text) key s = .ok selector) :
    selector.mark = mark.elim [] Mark.text ∧ selector.keyText? = key := by
  cases key with
  | none =>
    cases mark with
    | none => cases h; exact ⟨rfl, rfl⟩
    | some m => cases m <;> cases h; exact ⟨rfl, rfl⟩
  | some k =>
    cases mark with
    | none =>
      obtain ⟨hk, rfl⟩ := selector_of_withKey (some .whole) .only h
      exact ⟨rfl, rfl⟩
    | some m =>
      cases m with
      | exclamation =>
        obtain ⟨hk, rfl⟩ := selector_of_withKey none .without h
        exact ⟨rfl, rfl⟩
      | ampersand =>
        obtain ⟨hk, rfl⟩ := selector_of_withKey (some .countAll) .count h
        exact ⟨rfl, rfl⟩

theorem Input.value_eq_ok {x : Form.Input} {i : WafRules.Input} (h : x.value = .ok i) :
    x.name.text = Vocabulary.text i.name ∧ i.selector.mark = x.markText ∧
      i.selector.keyText? = x.key.map Token.Word.text := by
  simp only [value] at h
  split at h
  · contradiction
  · rename_i name hname
    cases hs : Selector.ofWritten (x.mark.map Mark.text) (x.key.map Token.Word.text) x.text with
    | error e => rw [hs] at h; cases h
    | ok selector =>
      rw [hs] at h
      cases h
      obtain ⟨mark, key⟩ := selector_of_ofWritten hs
      exact ⟨(Vocabulary.text_of_ofText?_eq_some hname).symm, mark, key⟩

/-- An input has no other written form than its canonical text. -/
theorem Input.text_eq_render {x : Form.Input} {i : WafRules.Input} (h : x.value = .ok i) :
    x.text = i.render := by
  obtain ⟨name, mark, key⟩ := value_eq_ok h
  simp only [WafRules.Input.render, mark, key, ← name, text, keyText, List.append_assoc]
  cases x.key <;> rfl

theorem Input.wellFormed_of_value {x : Form.Input} {i : WafRules.Input} (h : x.value = .ok i) :
    i.WellFormed := by
  obtain ⟨-, -, key⟩ := value_eq_ok h
  intro k hk c hc
  rw [key] at hk
  obtain ⟨word, -, rfl⟩ := Option.map_eq_some_iff.mp hk
  simpa [isKeyChar] using word.language.2 c hc

theorem Inputs.wellFormed_of_value {x : Form.Inputs} {is : List WafRules.Input}
    (h : x.value = .ok is) : WafRules.Inputs.WellFormed is := by
  constructor
  · rintro rfl
    exact absurd (mapM_eq_ok_iff.mp h) (by simp [all])
  · intro i hi
    obtain ⟨y, -, hy⟩ := exists_of_mapM_eq_ok h hi
    exact y.wellFormed_of_value hy

theorem Operator.wellFormed_of_value {x : Form.Operator} {o : WafRules.Operator}
    (h : x.value = .ok o) : o.WellFormed := by
  obtain ⟨negated, test⟩ := x
  cases test with
  | implicit argument starts =>
    cases h
    refine ⟨fun c hc => ?_, argument.language⟩
    exact isBlank_eq_false_of_class (starts c hc) (by decide) (by decide)
  | named name argument =>
    simp only [value] at h
    split at h
    · contradiction
    · cases h
      cases argument with
      | none => exact ⟨fun c hc => absurd hc (by simp), .nil⟩
      | some a => exact ⟨a.2.tight, a.2.language⟩

theorem unquote_quoted (s : Text) : WafRules.Action.unquote ('\'' :: (s ++ ['\''])) = s := by
  simp [WafRules.Action.unquote]

theorem unquote_bare (w : Token.Word .bareArgument) : WafRules.Action.unquote w.text = w.text := by
  have head : w.text.head? ≠ some '\'' := by
    intro h
    have bare := w.language.2 _ (List.mem_of_mem_head? h)
    exact absurd bare (by decide)
  simp [WafRules.Action.unquote, head]

theorem Action.value_eq_ok {x : Form.Action} {a : WafRules.Action} (h : x.value = .ok a) :
    x.name.text = Vocabulary.text a.name ∧
      a.argument = x.argument.map fun word => WafRules.Action.unquote word.text := by
  simp only [value] at h
  split at h
  · contradiction
  · rename_i name hname
    cases h
    exact ⟨(Vocabulary.text_of_ofText?_eq_some hname).symm, rfl⟩

theorem Action.readable_of_value {x : Form.Action} {a : WafRules.Action} (h : x.value = .ok a) :
    a.Readable := by
  obtain ⟨-, argument⟩ := value_eq_ok h
  intro s hs
  rw [argument] at hs
  obtain ⟨word, -, rfl⟩ := Option.map_eq_some_iff.mp hs
  cases word with
  | bare w =>
    rw [ActionArgument.text, unquote_bare]
    exact .inl w.language
  | quoted w =>
    obtain ⟨w, s, rfl, escaped⟩ := w
    rw [ActionArgument.text, unquote_quoted]
    exact .inr escaped

theorem Actions.readable_of_value {x : Form.Actions} {as : List WafRules.Action}
    (h : x.value = .ok as) : WafRules.Actions.Readable as := by
  intro a ha
  obtain ⟨y, -, hy⟩ := exists_of_mapM_eq_ok h ha
  exact y.readable_of_value hy

theorem Rule.readable_of_value {x : Form.Rule} {r : WafRules.Rule} (h : x.value = .ok r) :
    r.Readable := by
  obtain ⟨inputs, operator, actions⟩ := value_eq_ok_iff.mp h
  exact ⟨x.inputs.wellFormed_of_value inputs, x.operator.wellFormed_of_value operator,
    x.actions.readable_of_value actions⟩

end Form

/-- A rule that a text is read as is readable. -/
theorem Rule.readable_of_parse {s : Text} {r : Rule} (h : Model.parse s = .ok r) :
    r.Readable := by
  obtain ⟨x, -, hx⟩ := Form.parse_rule_eq_ok_iff.mp h
  exact x.readable_of_value hx

end WafRules
