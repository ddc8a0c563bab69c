import WafRules.Proofs.Form
import WafRules.Proofs.Reading

/-!
# Reading written forms

Every production takes the text of its form in full and makes the nodes of the form, as
soon as what follows cannot belong to it: a bar or a blank behind an input, the closing
quote behind an operator, a comma, a quote or a blank behind an action.
-/

namespace WafRules

namespace Form

open WafRules.Expr

variable {r : Text}

theorem blank_reads {c : Char} (start : Nat) (hc : isBlank c = true) (r : Text) :
    Grammar.blank.expr.Reads start [c] r [] := by
  rcases isBlank_iff.mp hc with rfl | rfl
  · exact .rule .blank (.first (.literal start [' '] r))
  · refine .rule .blank (.second ?_ (.literal start ['\t'] r))
    exact Refuses.literal (c := ' ') (by simp)

theorem blank_refuses {s : Text} (h : ∀ c ∈ s.head?, isBlank c = false) :
    Grammar.blank.expr.Refuses s := by
  apply Refuses.rule
  apply Refuses.either
  · exact Refuses.literal fun c hc => (ne_of_class (by decide) (h c hc)).symm
  · exact Refuses.literal fun c hc => (ne_of_class (by decide) (h c hc)).symm

theorem many_blank_reads {b : Text} (hb : ∀ c ∈ b, isBlank c = true)
    (hr : ∀ c ∈ r.head?, isBlank c = false) (start : Nat) :
    (Expr.many Grammar.blank).Reads start b r [] := by
  induction b generalizing start with
  | nil => exact .stop start (.inr (blank_refuses hr))
  | cons c b ih =>
    have tail := ih (fun d hd => hb d (List.mem_cons_of_mem c hd)) (start + 1)
    exact .again (List.cons_ne_nil c []) (blank_reads start (hb c List.mem_cons_self) _) tail

theorem Gap.reads (g : Gap) (hr : ∀ c ∈ r.head?, isBlank c = false) (start : Nat) :
    (Expr.manyOne Grammar.blank).Reads start g.text r [] := by
  obtain ⟨⟨b, hb⟩, hne⟩ := g
  cases b with
  | nil => exact absurd rfl hne
  | cons c b =>
    have tail := many_blank_reads (fun d hd => hb d (List.mem_cons_of_mem c hd)) hr (start + 1)
    exact .manyOne (List.cons_ne_nil c []) (blank_reads start (hb c List.mem_cons_self) _) tail

theorem Gap.head_blank (g : Gap) (r : Text) : ∀ c ∈ (g.text ++ r).head?, isBlank c = true :=
  head_run g.nonempty g.blank r

theorem Mark.reads (m : Mark) (start : Nat) (r : Text) :
    Grammar.inputModifier.body.Reads start m.text r [] := by
  cases m with
  | exclamation => exact .first (.literal start ['!'] r)
  | ampersand =>
    refine .second ?_ (.literal start ['&'] r)
    exact Refuses.literal (c := '!') (by simp [Mark.text])

namespace Input

theorem name_head (x : Input) (s : Text) : ∀ c ∈ (x.name.text ++ s).head?, c.isAlpha = true := by
  obtain ⟨_, ⟨w, c, t, rfl, hc, ht⟩, _⟩ := x
  intro d hd
  cases hd
  exact hc

theorem mark_reads (x : Input) (start : Nat) (r : Text) :
    (Expr.optional Grammar.inputModifier).Reads start x.markText (x.name.text ++ r)
      (x.markNodes start) := by
  cases hm : x.mark with
  | some m =>
    simp only [markText, markNodes, hm, Option.elim]
    exact .present (by cases m <;> simp [Mark.text])
      (.rule (.node .inputModifier) (m.reads start _))
  | none =>
    simp only [markText, markNodes, hm, Option.elim]
    refine .absent start (.inr (.rule _ (.either ?_ ?_)))
    · exact Refuses.literal fun c hc => ne_of_class (x.name_head r c hc) (by decide)
    · exact Refuses.literal fun c hc => ne_of_class (x.name_head r c hc) (by decide)

theorem key_reads (x : Input) (start : Nat) (hr : Text.BeginsIn ['|', ' ', '\t'] r) :
    (Expr.optional (Grammar.inOrder [Grammar.word ":", Grammar.selector])).Reads start x.keyText r
      (x.keyNodes start) := by
  cases hk : x.key with
  | some key =>
    simp only [keyText, keyNodes, hk, Option.elim]
    have ends : Token.key.EndsBefore r := hr.head (by decide)
    exact .present (List.cons_ne_nil _ _)
      (.seq (.literal start [':'] _) (.rule (.node .selector) (.token _ key.language ends)))
  | none =>
    simp only [keyText, keyNodes, hk, Option.elim]
    exact .absent start (.inr (.seq (.literal (hr.head (by decide)))))

theorem name_ends (x : Input) (hr : Text.BeginsIn ['|', ' ', '\t'] r) :
    Token.inputName.EndsBefore (x.keyText ++ r) := by
  cases hk : x.key with
  | some key =>
    simp only [keyText, hk, Option.elim]
    exact Token.endsBefore_cons.mpr rfl
  | none =>
    simp only [keyText, hk, Option.elim, List.nil_append]
    exact hr.head (by decide)

theorem reads (x : Input) (start : Nat) (hr : Text.BeginsIn ['|', ' ', '\t'] r) :
    Grammar.input.body.Reads start x.text r (x.nodes start) := by
  have name : Grammar.inputName.expr.Reads (start + x.markText.length) x.name.text
      (x.keyText ++ r) _ := .rule (.node .inputName) (.token _ x.name.language (x.name_ends hr))
  have rest := name.seq (x.key_reads _ hr)
  have mark := x.mark_reads start (x.keyText ++ r)
  rw [← List.append_assoc] at mark
  exact mark.seq rest

end Input

namespace Inputs

/-- Behind an input stands a bar, or what stands behind all the inputs. -/
theorem more_begins (xs : List Input) (hr : Text.BeginsIn [' ', '\t'] r) :
    Text.BeginsIn ['|', ' ', '\t'] (moreText xs ++ r) := by
  cases xs with
  | nil => exact fun c hc => List.mem_cons_of_mem _ (hr c hc)
  | cons x xs => exact Text.beginsIn_cons.mpr List.mem_cons_self

theorem more_reads (xs : List Input) (start : Nat) (hr : Text.BeginsIn [' ', '\t'] r) :
    (Expr.many (Grammar.inOrder [Grammar.word "|", Grammar.input])).Reads start (moreText xs) r
      (moreNodes xs start) := by
  induction xs generalizing start with
  | nil =>
    refine .stop start (.inr (.seq ?_))
    exact Refuses.literal (c := '|') (hr.head (by decide))
  | cons x xs ih =>
    have input := x.reads (start + 1) (more_begins xs hr)
    exact .again (List.cons_ne_nil _ _)
      (.seq (.literal start ['|'] _) (.rule (.node .input) input)) (ih _)

theorem reads (x : Inputs) (start : Nat) (hr : Text.BeginsIn [' ', '\t'] r) :
    Grammar.inputs.body.Reads start x.text r (x.nodes start) := by
  have first := x.first.reads start (more_begins x.more hr)
  exact .seq (.rule (.node .input) first) (more_reads x.more _ hr)

end Inputs

theorem argument_ends (r : Text) : Token.operatorArgument.EndsBefore ('"' :: r) :=
  Token.endsBefore_cons.mpr rfl

namespace Test

theorem name_head (name : Token.Word .operatorName) (s : Text) :
    ∀ c ∈ (name.text ++ s).head?, c = '@' := by
  obtain ⟨w, t, rfl, -, -⟩ := name
  intro c hc
  cases hc
  rfl

theorem name_ends (argument : Option (Gap × Argument)) (r : Text) :
    Token.operatorName.EndsBefore (argumentText argument ++ '"' :: r) := by
  cases argument with
  | none => exact Token.endsBefore_cons.mpr rfl
  | some a =>
    obtain ⟨gap, argument⟩ := a
    intro c hc
    have blank : isBlank c = true := by
      rw [argumentText, Option.elim, List.append_assoc] at hc
      exact gap.head_blank _ c hc
    rcases isBlank_iff.mp blank with rfl | rfl <;> decide

/-- Behind the gap stands no further blank. -/
theorem tight_head (a : Argument) (r : Text) :
    ∀ c ∈ (a.text ++ '"' :: r).head?, isBlank c = false := by
  intro c hc
  cases h : a.text with
  | nil =>
    rw [h] at hc
    cases hc
    rfl
  | cons d t =>
    rw [h] at hc
    cases hc
    exact a.tight c (by rw [h]; rfl)

theorem argument_reads (argument : Option (Gap × Argument)) (start : Nat) (r : Text) :
    (Expr.optional (Grammar.inOrder [.manyOne Grammar.blank, Grammar.operatorArgument])).Reads
      start (argumentText argument) ('"' :: r) (argumentNodes argument start) := by
  cases argument with
  | none => exact .absent start (.inr (.seq (.manyOne (blank_refuses (by simp; decide)))))
  | some a =>
    obtain ⟨gap, argument⟩ := a
    refine .present (by simp [argumentText, gap.nonempty]) ?_
    exact .seq (gap.reads (tight_head argument r) start)
      (.rule (.node .operatorArgument) (.token _ argument.language (argument_ends r)))

theorem named_refuses {argument : Text} (starts : ∀ c ∈ argument.head?, isImplicitStart c = true)
    (r : Text) : Grammar.namedOperator.expr.Refuses (argument ++ '"' :: r) := by
  refine .rule _ (.seq (.rule _ (.token ?_)))
  cases argument with
  | nil => rfl
  | cons c t =>
    have hc : c ≠ '@' := by
      rintro rfl
      exact absurd (starts _ rfl) (by decide)
    simp [Token.scan, hc]

/-- An operator without a name begins with its argument, or with the quote behind it. -/
theorem implicit_ahead {argument : Text} (starts : ∀ c ∈ argument.head?, isImplicitStart c = true)
    (start : Nat) (r : Text) :
    (Expr.ahead (.token .implicitStart)).Reads start [] (argument ++ '"' :: r) [] := by
  cases argument with
  | nil =>
    have look : (Expr.token .implicitStart).Reads start ['"'] r [] :=
      .token start ⟨'"', rfl, by decide⟩ (fun _ _ => rfl)
    exact look.ahead
  | cons c t =>
    have look : (Expr.token .implicitStart).Reads start [c] (t ++ '"' :: r) [] :=
      .token start ⟨c, rfl, starts c rfl⟩ (fun _ _ => rfl)
    exact look.ahead

theorem reads (x : Test) (start : Nat) (r : Text) :
    Grammar.operatorBody.expr.Reads start x.text ('"' :: r) (x.nodes start) := by
  cases x with
  | named name argument =>
    have operatorName : Grammar.operatorName.expr.Reads start name.text
        (argumentText argument ++ '"' :: r) _ :=
      .rule (.node .operatorName) (.token start name.language (name_ends argument r))
    exact .rule .operatorBody (.first
      (.rule .namedOperator (operatorName.seq (argument_reads argument _ r))))
  | implicit argument starts =>
    have word : Grammar.operatorArgument.expr.Reads start argument.text ('"' :: r) _ :=
      .rule (.node .operatorArgument) (.token start argument.language (argument_ends r))
    refine .rule .operatorBody (.second (named_refuses starts r) ?_)
    exact .rule .implicitOperator (.seq (implicit_ahead starts start r) word)

theorem head_ne_exclamation (x : Test) (r : Text) :
    ∀ c ∈ (x.text ++ '"' :: r).head?, c ≠ '!' := by
  rintro c hc rfl
  cases x with
  | named name argument =>
    rw [text, List.append_assoc] at hc
    exact absurd (name_head name _ _ hc) (by decide)
  | implicit argument starts =>
    rw [text] at hc
    cases h : argument.text with
    | nil =>
      rw [h] at hc
      exact absurd hc (by simp)
    | cons d t =>
      rw [h] at hc starts
      cases hc
      exact absurd (starts _ rfl) (by decide)

end Test

namespace Operator

theorem mark_reads (x : Operator) (start : Nat) (r : Text) :
    (Expr.optional Grammar.operatorNegation).Reads start x.markText (x.test.text ++ '"' :: r)
      (x.markNodes start) := by
  cases hn : x.negated with
  | true =>
    simp only [markText, markNodes, hn, if_true]
    exact .present (by simp) (.rule (.node .operatorNegation) (.literal start ['!'] _))
  | false =>
    simp only [markText, markNodes, hn]
    exact .absent start (.inr (.rule _ (.literal (x.test.head_ne_exclamation r))))

theorem reads (x : Operator) (start : Nat) (r : Text) :
    Grammar.operator.body.Reads start x.text r (x.nodes start) := by
  have close : (Grammar.word "\"").Reads
      (start + 1 + x.markText.length + x.test.text.length) ['"'] r [] := .literal _ ['"'] r
  have test := (x.test.reads (start + 1 + x.markText.length) r).seq_bare close
  have mark := (x.mark_reads (start + 1) r).congr_rest (List.append_assoc _ ['"'] r).symm
  exact .seq (.literal start ['"'] _) (mark.seq test)

end Operator

namespace Action

/-- What may stand behind an action. -/
def followers : List Char := [',', '"', ' ', '\t']

theorem name_ends (x : Action) (hr : Text.BeginsIn followers r) :
    Token.actionName.EndsBefore (x.argumentText ++ r) := by
  cases ha : x.argument with
  | none =>
    simp only [argumentText, ha, Option.elim, List.nil_append]
    exact hr.head (by decide)
  | some a =>
    simp only [argumentText, ha, Option.elim]
    exact Token.endsBefore_cons.mpr rfl

theorem bare_head (w : Token.Word .bareArgument) (s : Text) :
    ∀ c ∈ (w.text ++ s).head?, isBareChar c = true :=
  head_run w.language.1 w.language.2 s

theorem quoted_refuses (w : Token.Word .bareArgument) (s : Text) :
    (Expr.token .quotedArgument).Refuses (w.text ++ s) := by
  apply Refuses.token
  cases h : w.text ++ s with
  | nil => rfl
  | cons c t =>
    have hc : c ≠ '\'' := by
      rintro rfl
      exact absurd (bare_head w s _ (by rw [h]; rfl)) (by decide)
    simp [Token.scan, hc]

theorem word_reads (a : ActionArgument) (start : Nat) (hr : Text.BeginsIn followers r) :
    Grammar.actionArgument.body.Reads start a.text r [] := by
  cases a with
  | quoted w => exact .first (.token start w.language (fun _ _ => rfl))
  | bare w =>
    exact .second (quoted_refuses w r) (.token start w.language (hr.head (by decide)))

theorem argument_reads (x : Action) (start : Nat) (hr : Text.BeginsIn followers r) :
    (Expr.optional (Grammar.inOrder [Grammar.word ":", Grammar.actionArgument])).Reads start
      x.argumentText r (x.argumentNodes start) := by
  cases ha : x.argument with
  | none =>
    simp only [argumentText, argumentNodes, ha, Option.elim]
    exact .absent start (.inr (.seq (.literal (hr.head (by decide)))))
  | some a =>
    simp only [argumentText, argumentNodes, ha, Option.elim]
    exact .present (List.cons_ne_nil _ _)
      (.seq (.literal start [':'] _) (.rule (.node .actionArgument) (word_reads a _ hr)))

theorem reads (x : Action) (start : Nat) (hr : Text.BeginsIn followers r) :
    Grammar.action.body.Reads start x.text r (x.nodes start) := by
  have name : Grammar.actionName.expr.Reads start x.name.text (x.argumentText ++ r) _ :=
    .rule (.node .actionName) (.token start x.name.language (x.name_ends hr))
  exact name.seq (x.argument_reads _ hr)

theorem name_head (x : Action) (s : Text) : ∀ c ∈ (x.text ++ s).head?, c.isAlpha = true := by
  rw [text, List.append_assoc]
  exact head_run x.name.language.1 x.name.language.2 _

theorem head_not_blank (x : Action) (s : Text) : ∀ c ∈ (x.text ++ s).head?, isBlank c = false := by
  intro c hc
  exact isBlank_eq_false_of_class (x.name_head s c hc) (by decide) (by decide)

theorem text_ne_nil (x : Action) : x.text ≠ [] := by
  obtain ⟨⟨w, hne, hw⟩, _⟩ := x
  simp [text, hne]

end Action

namespace Actions

theorem blanks_begin (b : Blanks) {cs : List Char} (hb : ∀ c, isBlank c = true → c ∈ cs)
    (hr : Text.BeginsIn cs r) : Text.BeginsIn cs (b.text ++ r) := by
  obtain ⟨t, ht⟩ := b
  cases t with
  | nil => exact hr
  | cons c t => exact Text.beginsIn_cons.mpr (hb c (ht c List.mem_cons_self))

theorem blank_mem_followers (c : Char) (h : isBlank c = true) : c ∈ Action.followers := by
  rcases isBlank_iff.mp h with rfl | rfl <;> decide

theorem more_begins (xs : List NextAction) (closing : Blanks) (r : Text) :
    Text.BeginsIn Action.followers (moreText xs ++ (closing.text ++ '"' :: r)) := by
  cases xs with
  | nil => exact blanks_begin closing blank_mem_followers (Text.beginsIn_cons.mpr (by decide))
  | cons x xs =>
    simp only [moreText, List.flatMap_cons, NextAction.text, List.append_assoc]
    exact blanks_begin x.before blank_mem_followers (Text.beginsIn_cons.mpr (by decide))

theorem next_reads (x : NextAction) (start : Nat) (hr : Text.BeginsIn Action.followers r) :
    (Grammar.inOrder [.many Grammar.blank, Grammar.word ",", .many Grammar.blank,
      Grammar.action]).Reads start x.text r
        [x.action.node (start + x.before.text.length + 1 + x.after.text.length)] := by
  have action : Grammar.action.expr.Reads (start + x.before.text.length + 1 + x.after.text.length)
      x.action.text r _ := .rule (.node .action) (x.action.reads _ hr)
  have after := (many_blank_reads x.after.blank (x.action.head_not_blank r)
    (start + x.before.text.length + 1)).seq action
  have comma : (Grammar.word ",").Reads (start + x.before.text.length) [',']
      ((x.after.text ++ x.action.text) ++ r) [] := .literal _ [','] _
  have before : (Expr.many Grammar.blank).Reads start x.before.text
      (([','] ++ (x.after.text ++ x.action.text)) ++ r) [] :=
    many_blank_reads x.before.blank (by simp; decide) start
  exact before.seq (comma.seq after)

/-- The blanks before the closing quote are tried for one more action, but no comma follows. -/
theorem more_reads (xs : List NextAction) (start : Nat) (closing : Blanks) (r : Text) :
    (Expr.many (Grammar.inOrder [.many Grammar.blank, Grammar.word ",", .many Grammar.blank,
      Grammar.action])).Reads start (moreText xs) (closing.text ++ '"' :: r)
        (moreNodes xs start) := by
  induction xs generalizing start with
  | nil =>
    refine .stop start (.inr (.seq_second ?_ (.seq (.literal (c := ',') ?_))))
    · exact fun start => ⟨_, many_blank_reads closing.blank (by simp; decide) start⟩
    · simp
  | cons x xs ih =>
    have next := next_reads x start (more_begins xs closing r)
    exact .again (by simp [NextAction.text]) next (ih _)

theorem reads (x : Actions) (start : Nat) (r : Text) :
    Grammar.actions.body.Reads start x.text r (x.nodes start) := by
  cases x with
  | empty blanks =>
    have quote_head : ∀ c ∈ ('"' :: r).head?, isBlank c = false := by simp; decide
    have close : (Grammar.word "\"").Reads (start + 1 + blanks.text.length) ['"'] r [] :=
      .literal _ ['"'] r
    have noBlank : (Expr.many Grammar.blank).Reads (start + 1 + blanks.text.length) []
        (['"'] ++ r) [] := .stop _ (.inr (blank_refuses quote_head))
    have noList : (Expr.optional Grammar.actionList).Reads (start + 1 + blanks.text.length) []
        ('"' :: r) [] := .absent _ (.inr (.rule _ (.seq (.rule _ (.seq (.rule _ (.token rfl)))))))
    have opening := many_blank_reads (r := '"' :: r) blanks.blank quote_head (start + 1)
    have rest : (Grammar.inOrder [.optional Grammar.actionList, .many Grammar.blank,
        Grammar.word "\""]).Reads (start + 1 + blanks.text.length) ['"'] r [] :=
      noList.seq (v := ['"']) (noBlank.seq (u := []) (v := ['"']) close)
    have inner := opening.seq rest
    exact .seq (.literal start ['"'] _) inner
  | listed opening first more closing =>
    have close : (Grammar.word "\"").Reads (start + 1 + opening.text.length +
        (first.text ++ moreText more).length + closing.text.length) ['"'] r [] := .literal _ ['"'] r
    have closingBlanks := (many_blank_reads (r := '"' :: r) closing.blank (by simp; decide)
      (start + 1 + opening.text.length + (first.text ++ moreText more).length)).seq close
    have firstAction : Grammar.action.expr.Reads (start + 1 + opening.text.length) first.text
        (moreText more ++ (closing.text ++ '"' :: r)) _ :=
      .rule (.node .action) (first.reads _ (more_begins more closing r))
    have list := firstAction.seq (more_reads more _ closing r)
    have listed : (Expr.optional Grammar.actionList).Reads (start + 1 + opening.text.length)
        (first.text ++ moreText more) (closing.text ++ '"' :: r) _ :=
      .present (by simp [first.text_ne_nil]) (.rule .actionList list)
    have inner := (listed.congr_rest (by simp)).seq_bare closingBlanks
    have openingBlanks := many_blank_reads
      (r := ((first.text ++ moreText more) ++ (closing.text ++ ['"'])) ++ r) opening.blank
      (by rw [List.append_assoc, List.append_assoc]; exact first.head_not_blank _) (start + 1)
    exact .seq (.literal start ['"'] _) (openingBlanks.seq inner)

end Actions

theorem Input.head_not_blank (x : Input) (s : Text) :
    ∀ c ∈ (x.text ++ s).head?, isBlank c = false := by
  obtain ⟨mark, ⟨w, c, t, rfl, hc, ht⟩, key⟩ := x
  intro d hd
  cases mark with
  | some m => cases m <;> cases hd <;> rfl
  | none =>
    cases hd
    exact isBlank_eq_false_of_class hc (by decide) (by decide)

theorem Inputs.head_not_blank (x : Inputs) (s : Text) :
    ∀ c ∈ (x.text ++ s).head?, isBlank c = false := by
  rw [text, List.append_assoc]
  exact x.first.head_not_blank _

theorem Operator.head_not_blank (x : Operator) (s : Text) :
    ∀ c ∈ (x.text ++ s).head?, isBlank c = false := by
  intro c hc
  cases hc
  rfl

theorem Actions.head_not_blank (x : Actions) (s : Text) :
    ∀ c ∈ (x.text ++ s).head?, isBlank c = false := by
  intro c hc
  cases x <;> cases hc <;> rfl

theorem Gap.begins (g : Gap) (s : Text) : Text.BeginsIn [' ', '\t'] (g.text ++ s) := by
  intro c hc
  rcases isBlank_iff.mp (g.head_blank s c hc) with rfl | rfl <;> decide

namespace Rule

/-- The operator, the actions and the blanks around them. -/
theorem rear_reads (x : Rule) (start : Nat) (hr : ∀ c ∈ r.head?, isBlank c = false) :
    (Grammar.inOrder [Grammar.operator, .manyOne Grammar.blank, Grammar.actions,
      .many Grammar.blank]).Reads start
        (x.operator.text ++ (x.actionsGap.text ++ (x.actions.text ++ x.trail.text))) r
        [x.operator.node start,
          x.actions.node (start + x.operator.text.length + x.actionsGap.text.length)] := by
  let afterOperator := start + x.operator.text.length
  let afterGap := afterOperator + x.actionsGap.text.length
  have trail := many_blank_reads x.trail.blank hr (afterGap + x.actions.text.length)
  have actions : Grammar.actions.expr.Reads afterGap x.actions.text (x.trail.text ++ r) _ :=
    .rule (.node .actions) (x.actions.reads afterGap _)
  have gap : (Expr.manyOne Grammar.blank).Reads afterOperator x.actionsGap.text
      ((x.actions.text ++ x.trail.text) ++ r) [] := by
    refine x.actionsGap.reads ?_ afterOperator
    rw [List.append_assoc]
    exact x.actions.head_not_blank _
  have operator : Grammar.operator.expr.Reads start x.operator.text
      ((x.actionsGap.text ++ (x.actions.text ++ x.trail.text)) ++ r) _ :=
    .rule (.node .operator) (x.operator.reads start _)
  exact operator.seq (gap.seq (actions.seq trail))

theorem reads (x : Rule) (start : Nat) (hr : ∀ c ∈ r.head?, isBlank c = false) :
    Grammar.secRule.body.Reads start x.text r (x.nodes start) := by
  let afterLead := start + x.lead.text.length
  let afterWord := afterLead + Grammar.directiveWord.toList.length
  let afterInputs := x.inputsStart start + x.inputs.text.length
  have rear := x.rear_reads (x.operatorStart start) hr
  have operatorGap : (Expr.manyOne Grammar.blank).Reads afterInputs x.operatorGap.text
      ((x.operator.text ++ (x.actionsGap.text ++ (x.actions.text ++ x.trail.text))) ++ r) [] := by
    refine x.operatorGap.reads ?_ afterInputs
    rw [List.append_assoc]
    exact x.operator.head_not_blank _
  have begins : Text.BeginsIn [' ', '\t'] ((x.operatorGap.text ++ (x.operator.text ++
      (x.actionsGap.text ++ (x.actions.text ++ x.trail.text)))) ++ r) := by
    rw [List.append_assoc]
    exact x.operatorGap.begins _
  have inputs : Grammar.inputs.expr.Reads (x.inputsStart start) x.inputs.text _ _ :=
    .rule (.node .inputs) (x.inputs.reads _ begins)
  have gap : (Expr.manyOne Grammar.blank).Reads afterWord x.gap.text
      ((x.inputs.text ++ (x.operatorGap.text ++ (x.operator.text ++ (x.actionsGap.text ++
        (x.actions.text ++ x.trail.text))))) ++ r) [] := by
    refine x.gap.reads ?_ afterWord
    rw [List.append_assoc]
    exact x.inputs.head_not_blank _
  have word := (Reads.literal afterLead Grammar.directiveWord.toList _).seq
    (gap.seq (inputs.seq (operatorGap.seq rear)))
  have lead (s : Text) : (Expr.many Grammar.blank).Reads start x.lead.text
      ((Grammar.directiveWord.toList ++ s) ++ r) [] := by
    refine many_blank_reads x.lead.blank ?_ start
    intro c hc
    cases hc
    rfl
  exact (lead _).seq word

end Rule

end Form

end WafRules
