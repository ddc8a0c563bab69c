import WafRules.Proofs.Directives
import WafRules.Proofs.RoundTrip

/-!
# Blocks that are written and read again

A block is written with one canonical text behind the other, and each of them is cut into
directives on its own. The canonical text of a rule is one directive as long as no argument
has a line feed in it, and then the rule comes back or cannot be read. With a line feed in
an argument the rule never comes back, for no directive has one. Where each directive of
such a block can be read all the same, the block is read as other rules.
-/

namespace WafRules

/-- Some argument of the rule has the character in it. -/
def Rule.HasInArgument (r : Rule) (c : Char) : Prop :=
  c ∈ r.operator.argument ∨ ∃ a ∈ r.actions, ∃ s ∈ a.argument, c ∈ s

namespace Form

variable {c : Char}

/-- An argument has no characters but those of the text it is read from. -/
theorem Operator.mem_text {x : Form.Operator} {o : WafRules.Operator} (h : x.value = .ok o)
    (hc : c ∈ o.argument) : c ∈ x.text := by
  obtain ⟨negated, test⟩ := x
  cases test with
  | implicit argument starts =>
    cases h
    simp [text, Test.text, hc]
  | named name argument =>
    simp only [value] at h
    split at h
    · contradiction
    · cases h
      cases argument with
      | none => cases hc
      | some a =>
        have mem : c ∈ a.2.text := hc
        simp [text, Test.text, Test.argumentText, mem]

theorem mem_of_mem_unquote {s : Text} (h : c ∈ WafRules.Action.unquote s) : c ∈ s := by
  rw [WafRules.Action.unquote] at h
  split at h
  · exact List.mem_of_mem_tail (List.dropLast_subset _ h)
  · exact h

theorem Action.mem_text {x : Form.Action} {a : WafRules.Action} (h : x.value = .ok a) {s : Text}
    (hs : s ∈ a.argument) (hc : c ∈ s) : c ∈ x.text := by
  obtain ⟨-, argument⟩ := value_eq_ok h
  rw [argument] at hs
  obtain ⟨word, hword, rfl⟩ := Option.map_eq_some_iff.mp hs
  have mem := mem_of_mem_unquote hc
  simp [text, argumentText, hword, mem]

theorem Actions.mem_text {x : Form.Actions} {y : Form.Action} (hy : y ∈ x.all) (hc : c ∈ y.text) :
    c ∈ x.text := by
  cases x with
  | empty _ => cases hy
  | listed opening first more closing =>
    have rest : y ∈ more.map NextAction.action → c ∈ moreText more := by
      intro hy
      obtain ⟨z, hz, rfl⟩ := List.mem_map.mp hy
      exact List.mem_flatMap.mpr ⟨z, hz, by simp [NextAction.text, hc]⟩
    rcases List.mem_cons.mp hy with rfl | hy
    · simp [text, hc]
    · simp [text, rest hy]

theorem Rule.mem_text {x : Form.Rule} {r : WafRules.Rule} (h : x.value = .ok r)
    (hc : r.HasInArgument c) : c ∈ x.text := by
  obtain ⟨-, operator, actions⟩ := value_eq_ok_iff.mp h
  rcases hc with hc | ⟨a, ha, s, hs, hc⟩
  · have mem := Operator.mem_text operator hc
    simp [text, mem]
  · obtain ⟨y, hy, value⟩ := exists_of_mapM_eq_ok actions ha
    have mem := Actions.mem_text hy (Action.mem_text value hs hc)
    simp [text, mem]

end Form

theorem Rule.mem_of_parse {s : Text} {r : Rule} {c : Char} (h : Model.parse s = .ok r)
    (hc : r.HasInArgument c) : c ∈ s := by
  obtain ⟨x, rfl, hx⟩ := Form.parse_rule_eq_ok_iff.mp h
  exact x.mem_text hx hc

theorem Inputs.not_mem_render {is : List Input} (h : WellFormed is) : '\n' ∉ render is := by
  obtain ⟨x, hx⟩ := Form.exists_inputs_of_wellFormed h
  rw [← x.text_eq_render hx]
  exact fun mem => absurd (x.not_space _ mem) (by decide)

theorem Operator.mem_argument_of_mem_render {o : Operator} (h : '\n' ∈ o.render) :
    '\n' ∈ o.argument := by
  have name : '\n' ∉ Vocabulary.text o.name := by
    obtain ⟨s, hs, -, letters⟩ := Form.operatorName_language o.name
    cases hs
    exact fun mem => absurd (letters _ mem) (by decide)
  have mark : '\n' ∉ (if o.negated then ['!'] else []) := by
    split <;> decide
  simp only [render, List.mem_append, List.mem_cons, List.not_mem_nil, or_false] at h
  rcases h with (h | h) | h
  · rcases h with (h | h) | h | h
    · exact absurd h (by decide)
    · exact absurd h mark
    · exact absurd h (by decide)
    · exact absurd h name
  · split at h
    · cases h
    · exact (List.mem_cons.mp h).resolve_left (by decide)
  · exact absurd h (by decide)

theorem Action.mem_of_mem_quote {s : Text} (h : '\n' ∈ quote s) : '\n' ∈ s := by
  rw [quote] at h
  split at h
  · exact h
  · simpa using h

theorem Action.mem_argument_of_mem_render {a : Action} (h : '\n' ∈ a.render) :
    ∃ s ∈ a.argument, '\n' ∈ s := by
  rw [render, List.mem_append] at h
  rcases h with h | h
  · exact absurd ((Form.actionName_language a.name).2 _ h) (by decide)
  · cases ha : a.argument with
    | none => simp [ha] at h
    | some s =>
      rw [ha, Option.elim, List.mem_cons] at h
      exact ⟨s, rfl, mem_of_mem_quote (h.resolve_left (by decide))⟩

theorem Actions.mem_argument_of_mem_render {as : List Action} (h : '\n' ∈ render as) :
    ∃ a ∈ as, ∃ s ∈ a.argument, '\n' ∈ s := by
  cases as with
  | nil => exact absurd h (by decide)
  | cons a as =>
    rw [render, List.map_cons, Form.intercalate_cons, List.flatMap_map] at h
    simp only [List.cons_append, List.mem_cons, List.mem_append, List.mem_flatMap,
      List.not_mem_nil, or_false] at h
    rcases h with h | (h | ⟨b, hb, h | h⟩) | h
    · exact absurd h (by decide)
    · exact ⟨a, List.mem_cons_self, Action.mem_argument_of_mem_render h⟩
    · exact absurd h (by decide)
    · exact ⟨b, List.mem_cons_of_mem a hb, Action.mem_argument_of_mem_render h⟩
    · exact absurd h (by decide)

theorem Rule.hasInArgument_of_mem_render {r : Rule} (readable : r.Readable) (h : '\n' ∈ r.render) :
    r.HasInArgument '\n' := by
  have inputs := Inputs.not_mem_render readable.inputs
  have word : '\n' ∉ Grammar.directiveWord.toList := by decide
  simp only [render, List.mem_append, List.mem_cons] at h
  rcases h with ((h | h | h) | h | h) | h | h
  · exact absurd h word
  · exact absurd h (by decide)
  · exact absurd h inputs
  · exact absurd h (by decide)
  · exact .inl (Operator.mem_argument_of_mem_render h)
  · exact absurd h (by decide)
  · exact .inr (Actions.mem_argument_of_mem_render h)

theorem Rule.render_eq_concat (r : Rule) : ∃ s, r.render = ('S' :: s) ++ ['"'] := by
  refine ⟨"ecRule".toList ++ ' ' :: Inputs.render r.inputs ++ ' ' :: r.operator.render ++
    ' ' :: '"' :: [','].intercalate (r.actions.map Action.render), ?_⟩
  simp [render, Actions.render, Grammar.directiveWord]

/-- The last line of a canonical text is not continued. -/
theorem Rule.goesOn_lines_render (r : Rule) :
    Directive.goesOn false (Text.lines r.render) = false := by
  obtain ⟨s, hs⟩ := r.render_eq_concat
  obtain ⟨front, last, h⟩ := Text.lines_concat ('S' :: s) (c := '"') (by decide)
  rw [hs, h]
  refine Directive.goesOn_concat _ _ ?_
  rw [Directive.continued?, Directive.getLast?_trimLine_concat last (by decide) (by decide)]
  rfl

theorem Rule.fitsOnLine_render {r : Rule} (h : '\n' ∉ r.render) :
    Directive.FitsOnLine r.render := by
  obtain ⟨s, hs⟩ := r.render_eq_concat
  rw [hs] at h ⊢
  refine ⟨by simp, h, fun c hc => ?_, fun c hc => ?_⟩
  · cases hc
    decide
  · rw [List.getLast?_concat] at hc
    cases hc
    decide

/-- Without a line feed the canonical text is the only directive in it. -/
theorem Rule.directives_render_of_not_mem {r : Rule} (h : '\n' ∉ r.render) :
    directives r.render = [⟨1, r.render⟩] :=
  directives_of_fitsOnLine (fitsOnLine_render h)

theorem directives_renderBlock (rules : List Rule) :
    (directives (renderBlock rules)).map Directive.text =
      rules.flatMap fun r => (directives r.render).map Directive.text := by
  induction rules with
  | nil => rfl
  | cons r rules ih =>
    have texts (k : Nat) (ds : List Directive) :
        (ds.map (Directive.shift k)).map Directive.text = ds.map Directive.text := by
      rw [List.map_map]
      rfl
    have block : renderBlock (r :: rules) = r.render ++ '\n' :: renderBlock rules := by
      simp [renderBlock]
    rw [block, directives_append _ _ r.goesOn_lines_render, List.map_append, texts, ih,
      List.flatMap_cons]

/-- A written block is read exactly if each canonical text is, directive by directive. -/
theorem parseBlock_renderBlock_eq_ok_iff {rules others : List Rule} :
    (parseBlock (renderBlock rules)).value = .ok others ↔
      (rules.flatMap fun r => (directives r.render).map Directive.text).map Model.parse =
        others.map .ok := by
  rw [parseBlock_eq_ok_iff, ← directives_renderBlock, List.map_map]
  rfl

/-- Without line feeds a written block is read exactly if each canonical text is. -/
theorem parseBlock_renderBlock_eq_ok_iff_of_not_mem {rules others : List Rule}
    (h : ∀ r ∈ rules, '\n' ∉ r.render) :
    (parseBlock (renderBlock rules)).value = .ok others ↔
      rules.map (fun r => Model.parse r.render) = others.map .ok := by
  have single : ∀ r ∈ rules, (directives r.render).map Directive.text = [r.render] := by
    intro r hr
    rw [Rule.directives_render_of_not_mem (h r hr)]
    rfl
  rw [parseBlock_renderBlock_eq_ok_iff, List.flatMap_def, List.map_congr_left single,
    ← List.flatMap_def, ← List.map_eq_flatMap, List.map_map]
  rfl

/-- Each rule of a block is read from one of its directives. -/
theorem exists_directive_of_parseBlock {s : Text} {rules : List Rule}
    (h : (parseBlock s).value = .ok rules) {r : Rule} (hr : r ∈ rules) :
    ∃ d ∈ directives s, Model.parse d.text = .ok r := by
  have read : Except.ok r ∈ (directives s).map fun d => Model.parse d.text :=
    parseBlock_eq_ok_iff.mp h ▸ List.mem_map_of_mem hr
  exact List.mem_map.mp read

/-- No rule that is read from a block has a line feed in an argument. -/
theorem not_hasInArgument_of_parseBlock {s : Text} {rules : List Rule}
    (h : (parseBlock s).value = .ok rules) {r : Rule} (hr : r ∈ rules) :
    ¬ r.HasInArgument '\n' := by
  obtain ⟨d, hd, hparse⟩ := exists_directive_of_parseBlock h hr
  exact fun has => not_mem_of_mem_directives hd (Rule.mem_of_parse hparse has)

/-- Rules that come back are read from their canonical texts, one directive for each. -/
theorem parse_render_of_parseBlock_renderBlock {rules : List Rule}
    (h : (parseBlock (renderBlock rules)).value = .ok rules) {r : Rule} (hr : r ∈ rules) :
    Model.parse (Model.render r) = .ok r := by
  have noBreak : ∀ r ∈ rules, '\n' ∉ r.render := by
    intro r hr mem
    obtain ⟨d, -, hd⟩ := exists_directive_of_parseBlock h hr
    exact not_hasInArgument_of_parseBlock h hr
      (Rule.hasInArgument_of_mem_render (Rule.readable_of_parse hd) mem)
  have texts := (parseBlock_renderBlock_eq_ok_iff_of_not_mem noBreak).mp h
  exact List.map_inj_left.mp texts r hr

theorem parseBlock_renderBlock_of_parse_render {rules : List Rule}
    (h : ∀ r ∈ rules, Model.parse (Model.render r) = .ok r ∧ ¬ r.HasInArgument '\n') :
    (parseBlock (renderBlock rules)).value = .ok rules := by
  have noBreak : ∀ r ∈ rules, '\n' ∉ r.render := by
    intro r hr mem
    obtain ⟨back, plain⟩ := h r hr
    exact plain (Rule.hasInArgument_of_mem_render (Rule.readable_of_parse back) mem)
  refine (parseBlock_renderBlock_eq_ok_iff_of_not_mem noBreak).mpr ?_
  exact List.map_inj_left.mpr fun r hr => (h r hr).1

/-- What ends a line for other readers of text. Here it is a character like any other. -/
def Text.otherLineEnds : List Char :=
  ['\r', '\x0b', '\x0c', '\x1c', '\x1d', '\x1e', '\u0085', '\u2028', '\u2029']

/-- Arguments of letters, digits and such characters can be written and read. -/
theorem Rule.parse_render_of_otherLineEnds {r : Rule} (inputs : Inputs.WellFormed r.inputs)
    (h : ∀ c, r.HasInArgument c → c ∈ Text.otherLineEnds ∨ c.isAlphanum = true) :
    Model.parse (Model.render r) = .ok r ∧ ¬ r.HasInArgument '\n' := by
  have ordinary {c d : Char} (hc : r.HasInArgument c)
      (hd : d ∉ Text.otherLineEnds ∧ d.isAlphanum = false) : c ≠ d := by
    rintro rfl
    rcases h c hc with listed | alphanum
    · exact hd.1 listed
    · rw [alphanum] at hd
      exact absurd hd.2 (by decide)
  have escaped {quote : Char} {s : Text} (hs : ∀ c ∈ s, r.HasInArgument c)
      (hquote : quote ∉ Text.otherLineEnds ∧ quote.isAlphanum = false) : Escaped quote s :=
    escaped_of_forall fun c hc => ⟨ordinary (hs c hc) hquote, ordinary (hs c hc) (by decide)⟩
  have operator : r.operator.WellFormed := by
    constructor
    · intro c hc
      have has : r.HasInArgument c := .inl (List.mem_of_mem_head? hc)
      cases blank : isBlank c with
      | false => rfl
      | true =>
        rcases isBlank_iff.mp blank with space | tab
        · exact absurd space (ordinary has (by decide))
        · exact absurd tab (ordinary has (by decide))
    · exact escaped (fun c hc => .inl hc) (by decide)
  have actions : Actions.WellFormed r.actions := fun a ha s hs =>
    .inr (escaped (fun c hc => .inr ⟨a, ha, s, hs, hc⟩) (by decide))
  exact ⟨Rule.parse_render ⟨inputs, operator, actions⟩, fun has => ordinary has (by decide) rfl⟩

/-- Readable rules without line feeds in their arguments come back, or are not read. -/
theorem eq_of_parseBlock_renderBlock {rules others : List Rule}
    (readable : ∀ r ∈ rules, r.Readable) (plain : ∀ r ∈ rules, ¬ r.HasInArgument '\n')
    (h : (parseBlock (renderBlock rules)).value = .ok others) : others = rules := by
  have texts := (parseBlock_renderBlock_eq_ok_iff_of_not_mem fun r hr mem =>
    plain r hr (Rule.hasInArgument_of_mem_render (readable r hr) mem)).mp h
  clear h plain
  induction rules generalizing others with
  | nil =>
    cases others with
    | nil => rfl
    | cons q others => cases texts
  | cons r rules ih =>
    cases others with
    | nil => cases texts
    | cons q others =>
      obtain ⟨head, tail⟩ := List.cons.inj texts
      have wellFormed := Rule.wellFormed_of_parse_render (readable r List.mem_cons_self) head
      have same : r = q := Except.ok.inj ((Rule.parse_render wellFormed).symm.trans head)
      have rest := ih (fun p hp => readable p (List.mem_cons_of_mem r hp)) tail
      rw [same, rest]

/-- A written block is read back exactly if each rule is read from its canonical text and no
argument has a line feed in it. No other end of a line in an argument does any harm. -/
theorem parseBlock_renderBlock_eq_ok_self_iff (rules : List Rule) :
    ((parseBlock (renderBlock rules)).value = .ok rules ↔
      ∀ r ∈ rules, Model.parse (Model.render r) = .ok r ∧ ¬ r.HasInArgument '\n') ∧
    ((∀ r ∈ rules, Inputs.WellFormed r.inputs ∧
        ∀ c, r.HasInArgument c → c ∈ Text.otherLineEnds ∨ c.isAlphanum = true) →
      (parseBlock (renderBlock rules)).value = .ok rules) := by
  refine ⟨⟨fun back r hr => ?_, parseBlock_renderBlock_of_parse_render⟩, fun ordinary => ?_⟩
  · exact ⟨parse_render_of_parseBlock_renderBlock back hr,
      not_hasInArgument_of_parseBlock back hr⟩
  · refine parseBlock_renderBlock_of_parse_render fun r hr => ?_
    exact Rule.parse_render_of_otherLineEnds (ordinary r hr).1 (ordinary r hr).2

/-- A rule with ends of lines in both of its arguments. -/
def Rule.withLineEnds : Rule :=
  ⟨[⟨.args, .whole⟩], ⟨.streq, "a\r\u2028".toList, true⟩, [⟨.msg, some "\x1c\u0085b\x0b".toList⟩]⟩

/-- Such rules come back, and as often as they were written. A rule with a line feed does not,
although the two lines are joined again to a rule. -/
theorem parseBlock_renderBlock_eq_ok_self_of_line_ends :
    (parseBlock (renderBlock [Rule.withLineEnds, Rule.withLineEnds])).value =
      .ok [Rule.withLineEnds, Rule.withLineEnds] ∧
    (parseBlock (renderBlock [Rule.withMessage "a\\\\\nb".toList])).value ≠
      .ok [Rule.withMessage "a\\\\\nb".toList] := by
  constructor
  · refine (parseBlock_renderBlock_eq_ok_self_iff _).2 fun r hr => ?_
    obtain rfl : r = Rule.withLineEnds := by simpa using hr
    have ordinary (s : Text)
        (hs : (s.all fun c => decide (c ∈ Text.otherLineEnds ∨ c.isAlphanum = true)) = true) :
        ∀ c ∈ s, c ∈ Text.otherLineEnds ∨ c.isAlphanum = true :=
      fun c hc => of_decide_eq_true (List.all_eq_true.mp hs c hc)
    refine ⟨⟨List.cons_ne_nil _ _, fun i hi => ?_⟩, ?_⟩
    · cases List.mem_singleton.mp hi
      rintro key ⟨⟩
    · rintro c (hc | ⟨a, ha, s, hs, hc⟩)
      · exact ordinary _ (by decide +kernel) c hc
      · cases List.mem_singleton.mp ha
        cases hs
        exact ordinary _ (by decide +kernel) c hc
  · intro back
    have broken := ((parseBlock_renderBlock_eq_ok_self_iff _).1.mp back _ List.mem_cons_self).2
    exact broken (.inr ⟨_, List.mem_cons_self, _, rfl, by decide +kernel⟩)

/-- When a written block is silently read as other rules: some argument has a line feed, and
the directives that the canonical texts are cut into can all be read. -/
theorem exists_parseBlock_renderBlock_ne_iff {rules : List Rule}
    (h : ∀ r ∈ rules, ∃ s, Model.parse s = .ok r) :
    (∃ others, (parseBlock (renderBlock rules)).value = .ok others ∧ others ≠ rules) ↔
      (∃ r ∈ rules, r.HasInArgument '\n') ∧
      ∀ r ∈ rules, ∀ d ∈ directives r.render, ∃ q : Rule, Model.parse d.text = .ok q := by
  have readable : ∀ r ∈ rules, r.Readable := by
    intro r hr
    obtain ⟨s, hs⟩ := h r hr
    exact Rule.readable_of_parse hs
  constructor
  · rintro ⟨others, read, different⟩
    constructor
    · by_cases broken : ∃ r ∈ rules, r.HasInArgument '\n'
      · exact broken
      · have plain : ∀ r ∈ rules, ¬ r.HasInArgument '\n' := fun r hr has => broken ⟨r, hr, has⟩
        exact absurd (eq_of_parseBlock_renderBlock readable plain read) different
    · intro r hr d hd
      have mem : d.text ∈ rules.flatMap fun r => (directives r.render).map Directive.text :=
        List.mem_flatMap.mpr ⟨r, hr, List.mem_map_of_mem hd⟩
      have outcome : Model.parse d.text ∈ others.map Except.ok :=
        parseBlock_renderBlock_eq_ok_iff.mp read ▸ List.mem_map_of_mem mem
      obtain ⟨q, -, hq⟩ := List.mem_map.mp outcome
      exact ⟨q, hq.symm⟩
  · rintro ⟨⟨r, hr, has⟩, all⟩
    have each : ∀ t ∈ rules.flatMap fun r => (directives r.render).map Directive.text,
        ∃ q : Rule, Model.parse t = .ok q := by
      intro t ht
      obtain ⟨p, hp, ht⟩ := List.mem_flatMap.mp ht
      obtain ⟨d, hd, rfl⟩ := List.mem_map.mp ht
      exact all p hp d hd
    obtain ⟨others, hothers⟩ := exists_map_eq_map_ok each
    have read := parseBlock_renderBlock_eq_ok_iff.mpr hothers
    refine ⟨others, read, ?_⟩
    rintro rfl
    exact not_hasInArgument_of_parseBlock read hr has

/-- An argument that closes its own quote as soon as its first two lines are joined. Behind
these stands another rule, and the quotes that are still due stand in a comment. -/
def injectingArgument : Text := "a\\\\\n\\'\"\nSecRule ARGS \"@rx b\" \"id:1\"\n#".toList

/-- The rule with this argument is written, and two rules are read. -/
theorem exists_parseBlock_renderBlock_ne_of_injecting :
    ∃ others, (parseBlock (renderBlock [Rule.withMessage injectingArgument])).value = .ok others ∧
      others ≠ [Rule.withMessage injectingArgument] := by
  have readable : Model.parse (Rule.withMessage injectingArgument).render =
      .ok (Rule.withMessage injectingArgument) := eq_ok_of_toOption (by decide +kernel)
  have cut : (directives (Rule.withMessage injectingArgument).render).map Directive.text =
      ["SecRule ARGS \"@rx a\" \"msg:'a\\\\'\"".toList,
        "SecRule ARGS \"@rx b\" \"id:1\"".toList] := by decide +kernel
  have first : Model.parse "SecRule ARGS \"@rx a\" \"msg:'a\\\\'\"".toList =
      .ok (Rule.withMessage "a\\\\".toList) := eq_ok_of_toOption (by decide +kernel)
  have second : Model.parse "SecRule ARGS \"@rx b\" \"id:1\"".toList =
      .ok (⟨[⟨.args, .whole⟩], ⟨.rx, ['b'], false⟩, [⟨.id, some ['1']⟩]⟩ : Rule) :=
    eq_ok_of_toOption (by decide +kernel)
  refine (exists_parseBlock_renderBlock_ne_iff ?_).mpr ⟨?_, ?_⟩
  · intro r hr
    cases List.mem_singleton.mp hr
    exact ⟨_, readable⟩
  · exact ⟨_, List.mem_cons_self, .inr ⟨_, List.mem_cons_self, _, rfl, by decide +kernel⟩⟩
  · intro r hr d hd
    cases List.mem_singleton.mp hr
    have text := List.mem_map_of_mem (f := Directive.text) hd
    rw [cut, List.mem_cons, List.mem_singleton] at text
    rcases text with text | text
    · exact ⟨_, text ▸ first⟩
    · exact ⟨_, text ▸ second⟩

/-- So a written block can be read as other rules than it was written from. Here two
backslashes at the end of a line are one backslash inside of the line. -/
theorem not_forall_parseBlock_renderBlock :
    ¬ ∀ rules others : List Rule, (∀ r ∈ rules, ∃ s, Model.parse s = .ok r) →
      (parseBlock (renderBlock rules)).value = .ok others → others = rules := by
  intro all
  have same := all [Rule.withMessage "a\\\\\nb".toList] [Rule.withMessage "a\\b".toList] ?_
    (eq_ok_of_toOption (by decide +kernel))
  · exact absurd same (by decide +kernel)
  · intro r hr
    cases List.mem_singleton.mp hr
    exact ⟨"SecRule ARGS \"@rx a\" \"msg:'a\\\\\nb'\"".toList,
      eq_ok_of_toOption (by decide +kernel)⟩

end WafRules
