import WafRules.Proofs.Canonical

/-!
# Quotes that do not close

An argument that was read bare may be written back between single quotes, and if it ends in
a backslash that escapes nothing, the quote behind it is escaped instead of closing. What
follows is then read with inside and outside exchanged. The exchange is never undone: a
quote that would open an argument closes the open one, what stood between quotes is read
outside of them, and there no quote can stand but behind a colon.

So the canonical text of readable actions is not the text of any form as soon as one action
is not well formed.
-/

namespace WafRules

/-- Where a character stands with respect to the single quotes of a list of actions. Outside
of quotes it is known whether the last character was a colon. -/
inductive Quoting where
  | outside (afterColon : Bool)
  | inside
  /-- Inside, behind a backslash that escapes the next character. -/
  | escaped
  /-- A quote stands outside where none can be. -/
  | broken

namespace Quoting

def step : Quoting → Char → Quoting
  | outside afterColon, c =>
    if c = '\'' then (if afterColon then inside else broken) else outside (c == ':')
  | inside, c => if c = '\\' then escaped else if c = '\'' then outside false else inside
  | escaped, _ => inside
  | broken, _ => broken

/-- The state behind a text. -/
def after (q : Quoting) (s : Text) : Quoting := s.foldl step q

/-- Outside of quotes, and nothing is wrong. -/
def IsOutside (q : Quoting) : Prop := ∃ afterColon, q = outside afterColon

variable {q : Quoting} {s : Text}

@[simp] theorem after_cons (q : Quoting) (c : Char) (s : Text) :
    q.after (c :: s) = (q.step c).after s := rfl

@[simp] theorem after_append (q : Quoting) (s t : Text) :
    q.after (s ++ t) = (q.after s).after t := List.foldl_append

theorem after_broken (s : Text) : broken.after s = broken := by
  induction s with
  | nil => rfl
  | cons c s ih => exact ih

theorem isOutside_step (h : q.IsOutside) {c : Char} (hc : c ≠ '\'') :
    q.step c = outside (c == ':') := by
  obtain ⟨b, rfl⟩ := h
  simp [step, hc]

/-- Without single quotes one stays outside. -/
theorem isOutside_after (h : q.IsOutside) (hs : ∀ c ∈ s, c ≠ '\'') : (q.after s).IsOutside := by
  induction s generalizing q with
  | nil => exact h
  | cons c s ih =>
    have next := isOutside_step h (hs c List.mem_cons_self)
    exact ih ⟨_, next⟩ (fun d hd => hs d (List.mem_cons_of_mem c hd))

/-- Escaped text leaves one inside. -/
theorem inside_after_escaped (h : Escaped '\'' s) : inside.after s = inside := by
  induction h with
  | nil => rfl
  | plain hq hb _ ih => simpa [step, hq, hb] using ih
  | pair _ _ ih => simpa [step] using ih

/-- Escaped text read outside: each quote in it stands behind a backslash. -/
theorem outside_after_escaped (h : Escaped '\'' s) (hq : q.IsOutside) :
    (q.after s).IsOutside ∨ q.after s = broken := by
  induction h generalizing q with
  | nil => exact .inl hq
  | plain hquote _ _ ih => exact ih ⟨_, isOutside_step hq hquote⟩
  | @pair c s _ _ ih =>
    have backslash : q.step '\\' = outside false := isOutside_step hq (by decide)
    rw [after_cons, after_cons, backslash]
    by_cases hc : c = '\''
    · subst hc
      exact .inr (after_broken s)
    · exact ih ⟨_, isOutside_step ⟨false, rfl⟩ hc⟩

/-- Text without quotes and line feeds, read inside: it is escaped, or ends in a backslash
that escapes nothing. -/
theorem inside_after_of_no_quote (s : Text) (hs : ∀ c ∈ s, c ≠ '\'' ∧ c ≠ '\n') :
    (inside.after s = inside ∧ Escaped '\'' s) ∨
      (inside.after s = escaped ∧ ¬ Escaped '\'' s) := by
  induction s using escapedPrefix.induct '\'' with
  | case1 => exact .inl ⟨rfl, .nil⟩
  | case2 => exact .inr ⟨rfl, by decide⟩
  | case3 => exact absurd rfl (hs '\n' (by simp)).2
  | case4 d t hd _ _ _ ih =>
    rcases ih (fun e he => hs e (by simp [he])) with ⟨state, ht⟩ | ⟨state, ht⟩
    · exact .inl ⟨state, .pair hd ht⟩
    · refine .inr ⟨state, fun h => ?_⟩
      cases h with
      | plain _ hb _ => exact hb rfl
      | pair _ ht' => exact ht ht'
  | case5 => exact absurd rfl (hs '\'' (by simp)).1
  | case6 c t hc hq _ _ _ ih =>
    have stays : inside.step c = inside := by simp [step, hc, hq]
    rw [after_cons, stays]
    rcases ih (fun e he => hs e (by simp [he])) with ⟨state, ht⟩ | ⟨state, ht⟩
    · exact .inl ⟨state, .plain hq hc ht⟩
    · refine .inr ⟨state, fun h => ?_⟩
      cases h with
      | plain _ _ ht' => exact ht ht'
      | pair _ _ => exact hc rfl

/-- Letters change nothing inside. -/
theorem inside_after_letters (hs : ∀ c ∈ s, c.isAlpha = true) : inside.after s = inside := by
  induction s with
  | nil => rfl
  | cons c s ih =>
    have alpha := hs c List.mem_cons_self
    have backslash : c ≠ '\\' := ne_of_class alpha (by decide)
    have quote : c ≠ '\'' := ne_of_class alpha (by decide)
    have tail := ih (fun d hd => hs d (List.mem_cons_of_mem c hd))
    simpa [step, backslash, quote] using tail

/-- A name leaves one outside. -/
theorem isOutside_after_letters (h : q.IsOutside) (hs : ∀ c ∈ s, c.isAlpha = true) :
    (q.after s).IsOutside :=
  isOutside_after h fun c hc => ne_of_class (hs c hc) (by decide)

end Quoting

namespace Form

variable {q : Quoting}

/-- The text of a form never leaves one inside. -/
theorem Action.isOutside_after (x : Form.Action) (hq : q.IsOutside) :
    (q.after x.text).IsOutside := by
  have name := Quoting.isOutside_after_letters hq x.name.language.2
  rw [text, Quoting.after_append]
  cases ha : x.argument with
  | none =>
    rw [argumentText, ha]
    exact name
  | some word =>
    have colon : (q.after x.name.text).step ':' = .outside true :=
      Quoting.isOutside_step name (by decide)
    simp only [argumentText, ha, Option.elim, Quoting.after_cons, colon]
    cases word with
    | bare w =>
      exact Quoting.isOutside_after ⟨_, rfl⟩ fun c hc =>
        ne_of_class (w.language.2 c hc) (by decide)
    | quoted w =>
      obtain ⟨w, s, rfl, escaped⟩ := w
      have opened : (Quoting.outside true).step '\'' = .inside := rfl
      rw [ActionArgument.text, Quoting.after_cons, opened, Quoting.after_append,
        Quoting.inside_after_escaped escaped]
      exact ⟨false, rfl⟩

theorem Blanks.isOutside_after (b : Blanks) (hq : q.IsOutside) : (q.after b.text).IsOutside :=
  Quoting.isOutside_after hq fun c hc => ne_of_class (b.blank c hc) (by decide)

theorem Actions.isOutside_after_more (xs : List NextAction) (hq : q.IsOutside) :
    (q.after (moreText xs)).IsOutside := by
  induction xs generalizing q with
  | nil => exact hq
  | cons x xs ih =>
    have comma : ((q.after x.before.text).step ',').IsOutside :=
      ⟨_, Quoting.isOutside_step (x.before.isOutside_after hq) (by decide)⟩
    have action := x.action.isOutside_after (x.after.isOutside_after comma)
    simpa [moreText, NextAction.text] using ih action

theorem Actions.isOutside_after (x : Form.Actions) (hq : q.IsOutside) :
    (q.after x.text).IsOutside := by
  have opened : (q.step '"').IsOutside := ⟨_, Quoting.isOutside_step hq (by decide)⟩
  have closed {p : Quoting} (hp : p.IsOutside) : (p.after ['"']).IsOutside :=
    ⟨_, Quoting.isOutside_step hp (by decide)⟩
  cases x with
  | empty blanks =>
    rw [text, Quoting.after_cons, Quoting.after_append]
    exact closed (blanks.isOutside_after opened)
  | listed opening first more closing =>
    simp only [text, Quoting.after_cons, Quoting.after_append]
    exact closed (closing.isOutside_after (isOutside_after_more more
      (first.isOutside_after (opening.isOutside_after opened))))

end Form

namespace Quoting

/-- Not outside: what follows is read with inside and outside exchanged, or not at all. -/
inductive IsExchanged : Quoting → Prop
  | inside : IsExchanged inside
  | escaped : IsExchanged escaped
  | broken : IsExchanged broken

theorem IsExchanged.not_isOutside {q : Quoting} (h : q.IsExchanged) : ¬ q.IsOutside := by
  rintro ⟨b, rfl⟩
  cases h

/-- A comma or a double quote ends an escape, so that one is inside behind it. -/
theorem IsExchanged.step {q : Quoting} (h : q.IsExchanged) {c : Char} (hb : c ≠ '\\')
    (hq : c ≠ '\'') : q.step c = .inside ∨ q.step c = .broken := by
  cases h with
  | inside => exact .inl (by simp [Quoting.step, hb, hq])
  | escaped => exact .inl rfl
  | broken => exact .inr rfl

end Quoting

namespace Action

theorem quote_of_plain {s : Text} (h : s ≠ [] ∧ ∀ c ∈ s, isPlainChar c = true) : quote s = s := by
  have plain : (!s.isEmpty && s.all isPlainChar) = true := by simpa [h.1] using h.2
  rw [quote, if_pos plain]

theorem quote_of_not_plain {s : Text} (h : ¬ (s ≠ [] ∧ ∀ c ∈ s, isPlainChar c = true)) :
    quote s = '\'' :: (s ++ ['\'']) := by
  have plain : ¬ (!s.isEmpty && s.all isPlainChar) = true := by
    simpa [List.isEmpty_eq_false_iff] using h
  rw [quote, if_neg plain]
  rfl

theorem ne_quote_and_line_feed {c : Char} (h : isBareChar c = true) : c ≠ '\'' ∧ c ≠ '\n' :=
  ⟨ne_of_class h (by decide), ne_of_class h (by decide)⟩

open Quoting

variable {q : Quoting}

theorem inside_after_name (a : Action) : inside.after (Vocabulary.text a.name) = inside :=
  inside_after_letters (Form.actionName_language a.name).2

/-- Between its quotes a well-formed action comes back outside. -/
theorem isOutside_after_render {a : Action} (h : a.WellFormed) (hq : q.IsOutside) :
    (q.after a.render).IsOutside := by
  obtain ⟨x, hx, -⟩ := Form.exists_action_of_wellFormed h
  rw [← hx]
  exact x.isOutside_after hq

/-- A readable action that is not well formed has a bare argument that is written between
quotes and is not escaped for them. -/
theorem exists_dangling_argument {a : Action} (readable : a.Readable) (h : ¬ a.WellFormed) :
    ∃ s, a.argument = some s ∧ s ≠ [] ∧ (∀ c ∈ s, isBareChar c = true) ∧ ¬ Escaped '\'' s ∧
      quote s = '\'' :: (s ++ ['\'']) := by
  obtain ⟨name, argument⟩ := a
  cases argument with
  | none => exact absurd (fun s hs => by cases hs) h
  | some s =>
    have plain : ¬ (s ≠ [] ∧ ∀ c ∈ s, isPlainChar c = true) := fun hs =>
      h fun t ht => by cases ht; exact .inl hs
    have dangling : ¬ Escaped '\'' s := fun hs => h fun t ht => by cases ht; exact .inr hs
    obtain ⟨hne, bare⟩ := (readable s rfl).resolve_right dangling
    exact ⟨s, rfl, hne, bare, dangling, quote_of_not_plain plain⟩

/-- The closing quote of an action that is not well formed is escaped. -/
theorem inside_after_render {a : Action} (readable : a.Readable) (h : ¬ a.WellFormed)
    (hq : q.IsOutside) : q.after a.render = inside := by
  obtain ⟨s, ha, -, bare, dangling, quoted⟩ := exists_dangling_argument readable h
  have name := isOutside_after_letters hq (Form.actionName_language a.name).2
  have noQuote (c : Char) (hc : c ∈ s) := ne_quote_and_line_feed (bare c hc)
  have state := (inside_after_of_no_quote s noQuote).resolve_left fun hs => dangling hs.2
  have colon := isOutside_step name (c := ':') (by decide)
  simp only [render, ha, Option.elim, quoted, after_append, after_cons, colon]
  change ((inside.after s).after ['\'']) = inside
  rw [state.1]
  rfl

/-- A readable action is well formed if its canonical text is the text of a form. -/
theorem wellFormed_of_text_eq_render {a : Action} (readable : a.Readable) {x : Form.Action}
    (h : x.text = a.render) : a.WellFormed := by
  by_cases wellFormed : a.WellFormed
  · exact wellFormed
  · have outside := x.isOutside_after (q := .outside false) ⟨false, rfl⟩
    rw [h, inside_after_render readable wellFormed ⟨false, rfl⟩] at outside
    obtain ⟨_, h⟩ := outside
    contradiction

/-- Read from inside, a readable action does not come back outside. -/
theorem isExchanged_after_render {a : Action} (readable : a.Readable) :
    (inside.after a.render).IsExchanged := by
  rw [render, after_append, inside_after_name]
  cases ha : a.argument with
  | none => exact .inside
  | some s =>
    have colon : inside.step ':' = inside := rfl
    rw [Option.elim, after_cons, colon]
    by_cases plain : s ≠ [] ∧ ∀ c ∈ s, isPlainChar c = true
    · rw [quote_of_plain plain]
      have noQuote (c : Char) (hc : c ∈ s) :=
        ne_quote_and_line_feed (isBareChar_of_isPlainChar (plain.2 c hc))
      rcases inside_after_of_no_quote s noQuote with ⟨state, -⟩ | ⟨state, -⟩
      · rw [state]; exact .inside
      · rw [state]; exact .escaped
    · rw [quote_of_not_plain plain, after_cons, after_append]
      have closed : (inside.step '\'').IsOutside := ⟨false, rfl⟩
      have argument : ((inside.step '\'').after s).IsOutside ∨
          (inside.step '\'').after s = broken := by
        rcases readable s ha with ⟨-, bare⟩ | escaped
        · exact .inl (isOutside_after closed fun c hc => ne_of_class (bare c hc) (by decide))
        · exact outside_after_escaped escaped closed
      rcases argument with ⟨afterColon, state⟩ | state
      · rw [state]
        cases afterColon with
        | true => exact .inside
        | false => exact .broken
      · rw [state]
        exact .broken

end Action

namespace Actions

open Quoting

variable {q : Quoting}

/-- What is written of a list of actions behind another action. -/
def rest (as : List Action) : Text := as.flatMap (fun a => ',' :: a.render) ++ ['"']

theorem rest_cons (a : Action) (as : List Action) :
    rest (a :: as) = ',' :: (a.render ++ rest as) := by
  simp [rest]

theorem render_cons (a : Action) (as : List Action) :
    render (a :: as) = '"' :: (a.render ++ rest as) := by
  simp [render, rest, Form.intercalate_cons, List.flatMap_map]

/-- Behind an exchange the rest of the actions does not come back outside. -/
theorem isExchanged_after_rest {as : List Action} (readable : Readable as) (hq : q.IsExchanged) :
    (q.after (rest as)).IsExchanged := by
  induction as generalizing q with
  | nil =>
    change (q.step '"').IsExchanged
    rcases hq.step (c := '"') (by decide) (by decide) with closing | closing
    · rw [closing]
      exact .inside
    · rw [closing]
      exact .broken
  | cons a as ih =>
    obtain ⟨first, others⟩ := readable_cons.mp readable
    rw [rest_cons, after_cons, after_append]
    refine ih others ?_
    rcases hq.step (c := ',') (by decide) (by decide) with comma | comma
    · rw [comma]
      exact Action.isExchanged_after_render first
    · rw [comma, after_broken]
      exact .broken

/-- The first action that is not well formed exchanges inside and outside for good. -/
theorem isExchanged_after_rest_of_not_wellFormed {as : List Action} (readable : Readable as)
    (h : ¬ WellFormed as) (hq : q.IsOutside) : (q.after (rest as)).IsExchanged := by
  induction as generalizing q with
  | nil => exact absurd (fun a ha => by cases ha) h
  | cons a as ih =>
    obtain ⟨first, others⟩ := readable_cons.mp readable
    have comma : (q.step ',').IsOutside := ⟨_, isOutside_step hq (by decide)⟩
    rw [rest_cons, after_cons, after_append]
    by_cases ha : a.WellFormed
    · have later : ¬ WellFormed as := fun has => h (wellFormed_cons.mpr ⟨ha, has⟩)
      exact ih others later (Action.isOutside_after_render ha comma)
    · rw [Action.inside_after_render first ha comma]
      exact isExchanged_after_rest others .inside

/-- So it is for the actions of a rule, because a double quote and a comma are the same
outside. -/
theorem isExchanged_after_render {as : List Action} (readable : Readable as)
    (h : ¬ WellFormed as) : ((outside false).after (render as)).IsExchanged := by
  cases as with
  | nil => exact absurd (fun a ha => by cases ha) h
  | cons a as =>
    have same : (outside false).after (render (a :: as)) =
        (outside false).after (rest (a :: as)) := by
      rw [render_cons, rest_cons]
      rfl
    rw [same]
    exact isExchanged_after_rest_of_not_wellFormed readable h ⟨false, rfl⟩

/-- Readable actions are well formed if their canonical text, up to blanks behind it, is the
text of a form. -/
theorem wellFormed_of_text_eq_render {as : List Action} (readable : Readable as)
    {x : Form.Actions} {trail : Form.Blanks} (h : x.text ++ trail.text = render as) :
    WellFormed as := by
  by_cases wellFormed : WellFormed as
  · exact wellFormed
  · have exchanged := isExchanged_after_render readable wellFormed
    rw [← h, after_append] at exchanged
    exact absurd (trail.isOutside_after (x.isOutside_after ⟨false, rfl⟩)) exchanged.not_isOutside

end Actions

end WafRules
