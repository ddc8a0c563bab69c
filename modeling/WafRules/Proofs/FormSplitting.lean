import WafRules.Proofs.FormReading

/-!
# Where the parts of a rule end

The text of a rule is cut into its parts in one way. Blanks end at the first character that
is not blank, the inputs end at the first blank, and the operator ends at the first double
quote that no backslash escapes. The actions are not looked at, only that they do not begin
with a blank, so the same holds for texts that are no rules behind the operator.
-/

namespace WafRules

/-- A run of a class ends where a character is not of the class. -/
theorem run_append_inj {p : Char → Bool} {u v s t : Text} (hu : ∀ c ∈ u, p c = true)
    (hv : ∀ c ∈ v, p c = true) (hs : ∀ c ∈ s.head?, p c = false)
    (ht : ∀ c ∈ t.head?, p c = false) (h : u ++ s = v ++ t) : u = v ∧ s = t := by
  obtain ⟨takeLeft, dropLeft⟩ := takeWhile_run hu hs
  obtain ⟨takeRight, dropRight⟩ := takeWhile_run hv ht
  rw [h] at takeLeft dropLeft
  exact ⟨takeLeft.symm.trans takeRight, dropLeft.symm.trans dropRight⟩

/-- So does a run at the end of a text, seen from behind. -/
theorem append_run_inj {p : Char → Bool} {u v s t : Text} (hu : ∀ c ∈ u, p c = true)
    (hv : ∀ c ∈ v, p c = true) (hs : ∀ c ∈ s.getLast?, p c = false)
    (ht : ∀ c ∈ t.getLast?, p c = false) (h : s ++ u = t ++ v) : s = t ∧ u = v := by
  have reversed : u.reverse ++ s.reverse = v.reverse ++ t.reverse := by
    simpa using congrArg List.reverse h
  obtain ⟨run, rest⟩ := run_append_inj (by simpa using hu) (by simpa using hv)
    (by simpa using hs) (by simpa using ht) reversed
  exact ⟨List.reverse_inj.mp rest, List.reverse_inj.mp run⟩

/-- Escaped text ends at its delimiter. -/
theorem escaped_append_inj {quote : Char} (hquote : quote ≠ '\\') {u v s t : Text}
    (hu : Escaped quote u) (hv : Escaped quote v) (h : u ++ quote :: s = v ++ quote :: t) :
    u = v ∧ s = t := by
  have left := escapedPrefix_append_quote hquote hu s
  have right := escapedPrefix_append_quote hquote hv t
  rw [h, right, Prod.mk.injEq, List.cons.injEq] at left
  exact ⟨left.1.symm, left.2.2.symm⟩

theorem escaped_append {quote : Char} {u v : Text} (hu : Escaped quote u)
    (hv : Escaped quote v) : Escaped quote (u ++ v) := by
  induction hu with
  | nil => exact hv
  | plain hq hb _ ih => exact .plain hq hb ih
  | pair hc _ ih => exact .pair hc ih

/-- A text without delimiters and backslashes is escaped. -/
theorem escaped_of_forall {quote : Char} {s : Text} (h : ∀ c ∈ s, c ≠ quote ∧ c ≠ '\\') :
    Escaped quote s := by
  induction s with
  | nil => exact .nil
  | cons c s ih =>
    have head := h c List.mem_cons_self
    exact .plain head.1 head.2 (ih fun d hd => h d (List.mem_cons_of_mem c hd))

namespace Form

theorem Blanks.append_inj (b b' : Blanks) {s t : Text} (hs : ∀ c ∈ s.head?, isBlank c = false)
    (ht : ∀ c ∈ t.head?, isBlank c = false) (h : b.text ++ s = b'.text ++ t) :
    b.text = b'.text ∧ s = t :=
  run_append_inj b.blank b'.blank hs ht h

theorem not_space_of_isAlphanum {c : Char} (h : c.isAlphanum = true) : isWhiteSpace c = false := by
  have ranges : ((decide (65 ≤ c.val ∧ c.val ≤ 90) ||
      (decide (97 ≤ c.val) && decide (c.val ≤ 122))) ||
      (decide (48 ≤ c.val) && decide (c.val ≤ 57))) = true := h
  have value : c.val.toNat = c.toNat := rfl
  simp [UInt32.le_iff_toNat_le] at ranges
  simp [isWhiteSpace, whiteSpaceRanges]
  omega

/-- The characters of an input. -/
theorem Input.mem_text {x : Input} {c : Char} (h : c ∈ x.text) :
    c ∈ ['!', '&', ':'] ∨ isWordChar c = true ∨ isKeyChar c = true := by
  simp only [text, List.mem_append] at h
  rcases h with h | h | h
  · cases hm : x.mark with
    | none => simp [markText, hm] at h
    | some m => cases m <;> simp [markText, hm, Mark.text] at h <;> simp [h]
  · obtain ⟨d, t, hw, hd, ht⟩ := x.name.language
    rw [hw] at h
    rcases List.mem_cons.mp h with rfl | h
    · exact .inr (.inl (by simp [isWordChar, Char.isAlphanum, hd]))
    · exact .inr (.inl (ht c h))
  · cases hk : x.key with
    | none => simp [keyText, hk] at h
    | some key =>
      simp only [keyText, hk, Option.elim, List.mem_cons] at h
      rcases h with rfl | h
      · simp
      · exact .inr (.inr (key.language.2 c h))

theorem Input.not_space (x : Input) : ∀ c ∈ x.text, isWhiteSpace c = false := by
  intro c hc
  rcases Input.mem_text hc with mark | word | key
  · simp only [List.mem_cons, List.not_mem_nil, or_false] at mark
    rcases mark with rfl | rfl | rfl <;> rfl
  · simp only [isWordChar, Bool.or_eq_true, beq_iff_eq] at word
    rcases word with word | rfl
    · exact not_space_of_isAlphanum word
    · rfl
  · cases hs : isWhiteSpace c with
    | false => rfl
    | true => simp [isKeyChar, hs] at key

theorem Inputs.not_space (x : Inputs) : ∀ c ∈ x.text, isWhiteSpace c = false := by
  intro c hc
  simp only [text, moreText, List.mem_append, List.mem_flatMap, List.mem_cons] at hc
  rcases hc with hc | ⟨y, -, rfl | hc⟩
  · exact x.first.not_space c hc
  · rfl
  · exact y.not_space c hc

theorem Inputs.not_blank (x : Inputs) : ∀ c ∈ x.text, isBlank c = false := by
  intro c hc
  have space : (!isWhiteSpace c) = true := by simp [x.not_space c hc]
  exact isBlank_eq_false_of_class (p := fun c => !isWhiteSpace c) space (by decide) (by decide)

theorem Gap.head_not_unblank (g : Gap) (s : Text) :
    ∀ c ∈ (g.text ++ s).head?, (!isBlank c) = false := by
  intro c hc
  simp [g.head_blank s c hc]

theorem Inputs.append_inj {x y : Inputs} {g g' : Gap} {s t : Text}
    (h : x.text ++ (g.text ++ s) = y.text ++ (g'.text ++ t)) :
    x.text = y.text ∧ g.text ++ s = g'.text ++ t :=
  run_append_inj (p := fun c => !isBlank c) (fun c hc => by simp [x.not_blank c hc])
    (fun c hc => by simp [y.not_blank c hc]) (g.head_not_unblank s) (g'.head_not_unblank t) h

theorem escaped_blanks (b : Blanks) : Escaped '"' b.text := by
  refine escaped_of_forall fun c hc => ?_
  exact ⟨ne_of_class (b.blank c hc) (by decide), ne_of_class (b.blank c hc) (by decide)⟩

theorem Test.escaped (x : Test) : Escaped '"' x.text := by
  cases x with
  | implicit argument _ => exact argument.language
  | named name argument =>
    refine escaped_append ?_ ?_
    · obtain ⟨s, hw, -, hs⟩ := name.language
      rw [hw]
      refine .plain (by decide) (by decide) (escaped_of_forall fun c hc => ?_)
      exact ⟨ne_of_class (hs c hc) (by decide), ne_of_class (hs c hc) (by decide)⟩
    · cases argument with
      | none => exact .nil
      | some a => exact escaped_append (escaped_blanks a.1.toBlanks) a.2.language

theorem Operator.escaped (x : Operator) : Escaped '"' x.inner := by
  refine escaped_append ?_ x.test.escaped
  unfold markText
  split
  · exact .plain (by decide) (by decide) .nil
  · exact .nil

theorem Operator.text_eq (x : Operator) : x.text = '"' :: (x.inner ++ ['"']) := by
  simp [text, inner]

theorem Operator.append_inj {x y : Operator} {s t : Text} (h : x.text ++ s = y.text ++ t) :
    x.text = y.text ∧ s = t := by
  simp only [text_eq, List.cons_append, List.append_assoc, List.cons.injEq, true_and,
    List.nil_append] at h
  obtain ⟨inner, rest⟩ := escaped_append_inj (by decide) x.escaped y.escaped h
  exact ⟨by rw [x.text_eq, y.text_eq, inner], rest⟩

/-- Everything in front of the actions, and what follows there. -/
def front (lead : Blanks) (gap : Gap) (inputs : Inputs) (operatorGap : Gap) (operator : Operator)
    (actionsGap : Gap) (s : Text) : Text :=
  lead.text ++ (Grammar.directiveWord.toList ++ (gap.text ++ (inputs.text ++
    (operatorGap.text ++ (operator.text ++ (actionsGap.text ++ s))))))

/-- The text of a rule, cut in front of its actions. -/
theorem Rule.text_eq_front (x : Form.Rule) :
    x.text = front x.lead x.gap x.inputs x.operatorGap x.operator x.actionsGap
      (x.actions.text ++ x.trail.text) := rfl

/-- The parts in front of the actions end in one way. -/
theorem front_inj {lead lead' : Blanks} {gap gap' operatorGap operatorGap' actionsGap
    actionsGap' : Gap} {inputs inputs' : Inputs} {operator operator' : Operator} {s t : Text}
    (hs : ∀ c ∈ s.head?, isBlank c = false) (ht : ∀ c ∈ t.head?, isBlank c = false)
    (h : front lead gap inputs operatorGap operator actionsGap s =
      front lead' gap' inputs' operatorGap' operator' actionsGap' t) :
    (lead.text = lead'.text ∧ gap.text = gap'.text ∧ inputs.text = inputs'.text ∧
      operatorGap.text = operatorGap'.text ∧ operator.text = operator'.text ∧
      actionsGap.text = actionsGap'.text) ∧ s = t := by
  have word (u : Text) : ∀ c ∈ (Grammar.directiveWord.toList ++ u).head?, isBlank c = false := by
    intro c hc
    cases hc
    rfl
  obtain ⟨hlead, h⟩ := lead.append_inj lead' (word _) (word _) h
  obtain ⟨hgap, h⟩ := gap.append_inj gap'.toBlanks (inputs.head_not_blank _)
    (inputs'.head_not_blank _) (List.append_cancel_left h)
  obtain ⟨hinputs, h⟩ := Inputs.append_inj h
  obtain ⟨hoperatorGap, h⟩ := operatorGap.append_inj operatorGap'.toBlanks
    (operator.head_not_blank _) (operator'.head_not_blank _) h
  obtain ⟨hoperator, h⟩ := Operator.append_inj h
  obtain ⟨hactionsGap, h⟩ := actionsGap.append_inj actionsGap'.toBlanks hs ht h
  exact ⟨⟨hlead, hgap, hinputs, hoperatorGap, hoperator, hactionsGap⟩, h⟩

/-- Actions end in their closing quote, so the blanks behind them are told apart. -/
theorem Actions.getLast_not_blank (x : Actions) :
    ∀ c ∈ x.text.getLast?, isBlank c = false := by
  have closed : x.text.getLast? = some '"' := by
    cases x <;> simp [text, List.getLast?_cons, List.getLast?_append]
  intro c hc
  cases closed ▸ hc
  rfl

/-- All the parts of a rule end in one way. -/
theorem Rule.text_inj {x y : Form.Rule} (h : x.text = y.text) :
    x.lead.text = y.lead.text ∧ x.gap.text = y.gap.text ∧ x.inputs.text = y.inputs.text ∧
      x.operatorGap.text = y.operatorGap.text ∧ x.operator.text = y.operator.text ∧
      x.actionsGap.text = y.actionsGap.text ∧ x.actions.text = y.actions.text ∧
      x.trail.text = y.trail.text := by
  rw [x.text_eq_front, y.text_eq_front] at h
  obtain ⟨⟨lead, gap, inputs, operatorGap, operator, actionsGap⟩, rear⟩ :=
    front_inj (x.actions.head_not_blank _) (y.actions.head_not_blank _) h
  obtain ⟨actions, trail⟩ := append_run_inj x.trail.blank y.trail.blank
    x.actions.getLast_not_blank y.actions.getLast_not_blank rear
  exact ⟨lead, gap, inputs, operatorGap, operator, actionsGap, actions, trail⟩

end Form

end WafRules
