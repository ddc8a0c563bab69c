import WafRules.Proofs.Form

/-!
# Described texts are written forms

Every text that a production describes is the text of one of its forms. Where the grammar
leaves open which of two neighbours takes a blank, the form gives it to the first.
-/

namespace WafRules

open WafRules.Expr

namespace Form

variable {w r : Text}

theorem isBlank_of_describes (h : Grammar.blank.expr.Describes w r) :
    ∃ c, [c] = w ∧ isBlank c = true := by
  rcases describes_either.mp (describes_rule.mp h) with h | h
  · exact ⟨' ', (describes_literal.mp h).symm, rfl⟩
  · exact ⟨'\t', (describes_literal.mp h).symm, rfl⟩

theorem exists_blanks (h : (Expr.many Grammar.blank).Describes w r) :
    ∃ b : Blanks, b.text = w := by
  obtain ⟨cs, rfl⟩ := exists_row_of_describes_many
    (fun c : {c : Char // isBlank c = true} => [c.1])
    (fun u s hu => by
      obtain ⟨c, rfl, hc⟩ := isBlank_of_describes hu
      exact ⟨⟨c, hc⟩, rfl⟩) h
  refine ⟨⟨_, ?_⟩, rfl⟩
  intro c hc
  obtain ⟨d, -, hd⟩ := List.mem_flatMap.mp hc
  rw [List.mem_singleton.mp hd]
  exact d.2

theorem exists_gap (h : (Expr.manyOne Grammar.blank).Describes w r) : ∃ g : Gap, g.text = w := by
  obtain ⟨u, v, rfl, hu, hv⟩ := describes_manyOne.mp h
  obtain ⟨c, rfl, hc⟩ := isBlank_of_describes hu
  obtain ⟨b, rfl⟩ := exists_blanks hv
  refine ⟨⟨⟨c :: b.text, ?_⟩, List.cons_ne_nil _ _⟩, rfl⟩
  intro d hd
  rcases List.mem_cons.mp hd with rfl | hd
  · exact hc
  · exact b.blank d hd

theorem exists_mark (h : Grammar.inputModifier.body.Describes w r) : ∃ m : Mark, m.text = w := by
  rcases describes_either.mp h with h | h
  · exact ⟨.exclamation, (describes_literal.mp h).symm⟩
  · exact ⟨.ampersand, (describes_literal.mp h).symm⟩

theorem exists_input (h : Grammar.input.body.Describes w r) : ∃ x : Input, x.text = w := by
  obtain ⟨u, v, rfl, hmark, hv⟩ := describes_seq.mp h
  obtain ⟨name, rest, rfl, hname, hkey⟩ := describes_seq.mp hv
  have name_word := describes_token.mp (describes_rule.mp hname)
  have mark : ∃ m : Option Mark, m.elim [] Mark.text = u := by
    rcases describes_optional.mp hmark with rfl | hmark
    · exact ⟨none, rfl⟩
    · obtain ⟨m, rfl⟩ := exists_mark (describes_rule.mp hmark)
      exact ⟨some m, rfl⟩
  have key : ∃ k : Option (Token.Word .key), (k.elim [] fun key => ':' :: key.text) = rest := by
    rcases describes_optional.mp hkey with rfl | hkey
    · exact ⟨none, rfl⟩
    · obtain ⟨colon, k, rfl, hcolon, hk⟩ := describes_seq.mp hkey
      rw [describes_literal.mp hcolon]
      exact ⟨some ⟨k, describes_token.mp (describes_rule.mp hk)⟩, rfl⟩
  obtain ⟨m, rfl⟩ := mark
  obtain ⟨k, rfl⟩ := key
  exact ⟨⟨m, ⟨name, name_word⟩, k⟩, rfl⟩

theorem exists_inputs (h : Grammar.inputs.body.Describes w r) : ∃ x : Inputs, x.text = w := by
  obtain ⟨u, v, rfl, hfirst, hmore⟩ := describes_seq.mp h
  obtain ⟨first, rfl⟩ := exists_input (describes_rule.mp hfirst)
  obtain ⟨more, rfl⟩ := exists_row_of_describes_many
    (fun x : Input => '|' :: x.text)
    (fun u s hu => by
      obtain ⟨bar, t, rfl, hbar, ht⟩ := describes_seq.mp hu
      obtain ⟨x, rfl⟩ := exists_input (describes_rule.mp ht)
      rw [describes_literal.mp hbar]
      exact ⟨x, rfl⟩) hmore
  exact ⟨⟨first, more⟩, rfl⟩

theorem escaped_dropWhile_isBlank (h : Escaped '"' w) : Escaped '"' (w.dropWhile isBlank) := by
  induction h with
  | nil => exact .nil
  | plain hq hb hs ih =>
    rw [List.dropWhile_cons]
    split
    · exact ih
    · exact .plain hq hb hs
  | pair hc hs => exact .pair hc hs

/-- A gap and an argument behind it, with all the blanks between them in the gap. -/
theorem exists_tight (g : Gap) (h : Escaped '"' w) :
    ∃ a : Gap × Argument, a.1.text ++ a.2.text = g.text ++ w := by
  have blank : ∀ c ∈ g.text ++ w.takeWhile isBlank, isBlank c = true := by
    intro c hc
    rcases List.mem_append.mp hc with hc | hc
    · exact g.blank c hc
    · exact List.all_eq_true.mp List.all_takeWhile c hc
  have tight : ∀ c ∈ (w.dropWhile isBlank).head?, isBlank c = false := by
    intro c hc
    have unblank := List.head?_dropWhile_not isBlank w
    rw [Option.mem_def.mp hc] at unblank
    simpa using unblank
  refine ⟨(⟨⟨_, blank⟩, by simp [g.nonempty]⟩, ⟨⟨_, escaped_dropWhile_isBlank h⟩, tight⟩), ?_⟩
  simp [List.takeWhile_append_dropWhile]

theorem exists_test (h : Grammar.operatorBody.expr.Describes w r) : ∃ x : Test, x.text = w := by
  rcases describes_either.mp (describes_rule.mp h) with h | h
  · obtain ⟨name, rest, rfl, hname, hrest⟩ := describes_seq.mp (describes_rule.mp h)
    have name_word := describes_token.mp (describes_rule.mp hname)
    rcases describes_optional.mp hrest with rfl | hrest
    · exact ⟨.named ⟨name, name_word⟩ none, rfl⟩
    · obtain ⟨u, v, rfl, hgap, hargument⟩ := describes_seq.mp hrest
      obtain ⟨gap, rfl⟩ := exists_gap hgap
      have escaped : Escaped '"' v := describes_token.mp (describes_rule.mp hargument)
      obtain ⟨argument, whole⟩ := exists_tight gap escaped
      exact ⟨.named ⟨name, name_word⟩ (some argument), congrArg (name ++ ·) whole⟩
  · obtain ⟨nothing, argument, rfl, hahead, hargument⟩ := describes_seq.mp (describes_rule.mp h)
    have escaped := describes_token.mp (describes_rule.mp hargument)
    obtain ⟨rfl, u, v, whole, hu⟩ := describes_ahead.mp hahead
    obtain ⟨c, rfl, hc⟩ : ∃ c, u = [c] ∧ isImplicitStart c = true := describes_token.mp hu
    refine ⟨.implicit ⟨argument, escaped⟩ ?_, rfl⟩
    intro d hd
    cases argument with
    | nil => cases hd
    | cons a argument =>
      cases hd
      cases whole
      exact hc

theorem exists_operator (h : Grammar.operator.body.Describes w r) :
    ∃ x : Operator, x.text = w := by
  obtain ⟨opening, u, rfl, hopening, hu⟩ := describes_seq.mp h
  obtain ⟨mark, v, rfl, hmark, hv⟩ := describes_seq.mp hu
  obtain ⟨body, closing, rfl, hbody, hclosing⟩ := describes_seq.mp hv
  obtain ⟨test, rfl⟩ := exists_test hbody
  rw [describes_literal.mp hopening, describes_literal.mp hclosing]
  rcases describes_optional.mp hmark with rfl | hmark
  · exact ⟨⟨false, test⟩, rfl⟩
  · rw [describes_literal.mp (describes_rule.mp hmark)]
    exact ⟨⟨true, test⟩, rfl⟩

theorem exists_actionArgument (h : Grammar.actionArgument.body.Describes w r) :
    ∃ a : ActionArgument, a.text = w := by
  rcases describes_either.mp h with h | h
  · exact ⟨.quoted ⟨w, describes_token.mp h⟩, rfl⟩
  · exact ⟨.bare ⟨w, describes_token.mp h⟩, rfl⟩

theorem exists_action (h : Grammar.action.body.Describes w r) : ∃ x : Action, x.text = w := by
  obtain ⟨name, rest, rfl, hname, hrest⟩ := describes_seq.mp h
  have name_word := describes_token.mp (describes_rule.mp hname)
  rcases describes_optional.mp hrest with rfl | hrest
  · exact ⟨⟨⟨name, name_word⟩, none⟩, rfl⟩
  · obtain ⟨colon, u, rfl, hcolon, hu⟩ := describes_seq.mp hrest
    obtain ⟨a, rfl⟩ := exists_actionArgument (describes_rule.mp hu)
    rw [describes_literal.mp hcolon]
    exact ⟨⟨⟨name, name_word⟩, some a⟩, rfl⟩

theorem exists_nextAction {s : Text} (h : (Grammar.inOrder [.many Grammar.blank, Grammar.word ",",
    .many Grammar.blank, Grammar.action]).Describes w s) : ∃ x : NextAction, x.text = w := by
  obtain ⟨before, u, rfl, hbefore, hu⟩ := describes_seq.mp h
  obtain ⟨comma, v, rfl, hcomma, hv⟩ := describes_seq.mp hu
  obtain ⟨after, action, rfl, hafter, haction⟩ := describes_seq.mp hv
  obtain ⟨b, rfl⟩ := exists_blanks hbefore
  obtain ⟨a, rfl⟩ := exists_blanks hafter
  obtain ⟨x, rfl⟩ := exists_action (describes_rule.mp haction)
  rw [describes_literal.mp hcomma]
  exact ⟨⟨b, a, x⟩, rfl⟩

theorem exists_actions (h : Grammar.actions.body.Describes w r) : ∃ x : Actions, x.text = w := by
  obtain ⟨opening, u, rfl, hopening, hu⟩ := describes_seq.mp h
  obtain ⟨before, v, rfl, hbefore, hv⟩ := describes_seq.mp hu
  obtain ⟨list, s, rfl, hlist, hs⟩ := describes_seq.mp hv
  obtain ⟨after, closing, rfl, hafter, hclosing⟩ := describes_seq.mp hs
  obtain ⟨b, rfl⟩ := exists_blanks hbefore
  obtain ⟨a, rfl⟩ := exists_blanks hafter
  rw [describes_literal.mp hopening, describes_literal.mp hclosing]
  rcases describes_optional.mp hlist with rfl | hlist
  · have blank : ∀ c ∈ b.text ++ a.text, isBlank c = true := by
      intro c hc
      rcases List.mem_append.mp hc with hc | hc
      · exact b.blank c hc
      · exact a.blank c hc
    exact ⟨.empty ⟨_, blank⟩, by simp [Actions.text]⟩
  · obtain ⟨first, more, rfl, hfirst, hmore⟩ := describes_seq.mp (describes_rule.mp hlist)
    obtain ⟨x, rfl⟩ := exists_action (describes_rule.mp hfirst)
    obtain ⟨xs, rfl⟩ := exists_row_of_describes_many NextAction.text
      (fun _ _ => exists_nextAction) hmore
    exact ⟨.listed b x xs a, rfl⟩

theorem exists_rule (h : Grammar.secRule.body.Describes w r) : ∃ x : Rule, x.text = w := by
  obtain ⟨lead, w₁, rfl, hlead, h₁⟩ := describes_seq.mp h
  obtain ⟨word, w₂, rfl, hword, h₂⟩ := describes_seq.mp h₁
  obtain ⟨gap, w₃, rfl, hgap, h₃⟩ := describes_seq.mp h₂
  obtain ⟨inputs, w₄, rfl, hinputs, h₄⟩ := describes_seq.mp h₃
  obtain ⟨operatorGap, w₅, rfl, hoperatorGap, h₅⟩ := describes_seq.mp h₄
  obtain ⟨operator, w₆, rfl, hoperator, h₆⟩ := describes_seq.mp h₅
  obtain ⟨actionsGap, w₇, rfl, hactionsGap, h₇⟩ := describes_seq.mp h₆
  obtain ⟨actions, trail, rfl, hactions, htrail⟩ := describes_seq.mp h₇
  obtain ⟨lead, rfl⟩ := exists_blanks hlead
  obtain ⟨gap, rfl⟩ := exists_gap hgap
  obtain ⟨inputs, rfl⟩ := exists_inputs (describes_rule.mp hinputs)
  obtain ⟨operatorGap, rfl⟩ := exists_gap hoperatorGap
  obtain ⟨operator, rfl⟩ := exists_operator (describes_rule.mp hoperator)
  obtain ⟨actionsGap, rfl⟩ := exists_gap hactionsGap
  obtain ⟨actions, rfl⟩ := exists_actions (describes_rule.mp hactions)
  obtain ⟨trail, rfl⟩ := exists_blanks htrail
  rw [describes_literal.mp hword]
  exact ⟨⟨lead, gap, inputs, operatorGap, operator, actionsGap, actions, trail⟩, rfl⟩

end Form

end WafRules
