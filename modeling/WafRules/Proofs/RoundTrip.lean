import Mathlib.Data.List.DropRight
import WafRules.Proofs.Rendering

/-!
# Rules that are read and written back

A rule that was read is read from its canonical text again, unless the argument of one of
its actions dangles. Such an argument has an information separator in it, so that it is
written back between quotes although it was read bare, and it ends in an odd number of
backslashes, the last of which escapes the closing quote. The grammar then rejects the
canonical text; it is never read as another rule.
-/

namespace WafRules

namespace Text

/-- How many backslashes stand at the end. -/
def backslashesAtEnd (s : Text) : Nat := (s.rtakeWhile (· == '\\')).length

theorem backslashesAtEnd_le_length (s : Text) : backslashesAtEnd s ≤ s.length :=
  (List.rtakeWhile_suffix (· == '\\') s).length_le

/-- There are more in front only where all of the text is backslashes. -/
theorem backslashesAtEnd_cons (c : Char) (s : Text) :
    backslashesAtEnd (c :: s) =
      if c = '\\' ∧ backslashesAtEnd s = s.length then s.length + 1 else backslashesAtEnd s := by
  have run (s : Text) : backslashesAtEnd s = (s.reverse.takeWhile (· == '\\')).length :=
    List.length_reverse
  rw [run (c :: s), List.reverse_cons, List.takeWhile_append, ← run, List.length_reverse]
  by_cases all : backslashesAtEnd s = s.length
  · by_cases hc : c = '\\'
    · simp [all, hc]
    · simp [all, hc]
  · rw [if_neg all, if_neg fun h => all h.2, run]

theorem backslashesAtEnd_cons_of_ne {c : Char} (h : c ≠ '\\') (s : Text) :
    backslashesAtEnd (c :: s) = backslashesAtEnd s := by
  rw [backslashesAtEnd_cons, if_neg fun both => h both.1]

/-- A backslash and the character behind it do not change whether one is left over. -/
theorem backslashesAtEnd_pair (c : Char) (s : Text) :
    backslashesAtEnd ('\\' :: c :: s) % 2 = backslashesAtEnd s % 2 := by
  have short := backslashesAtEnd_le_length s
  have inner := backslashesAtEnd_cons c s
  have outer := backslashesAtEnd_cons '\\' (c :: s)
  rw [List.length_cons] at outer
  split at inner
  · rename_i both
    rw [if_pos ⟨rfl, inner⟩] at outer
    omega
  · rw [if_neg fun both => by omega] at outer
    omega

end Text

/-- In escaped text the backslashes at the end are paired. -/
theorem Escaped.even_backslashesAtEnd {quote : Char} {s : Text} (h : Escaped quote s) :
    s.backslashesAtEnd % 2 = 0 := by
  induction h with
  | nil => rfl
  | plain _ hb _ ih => rw [Text.backslashesAtEnd_cons_of_ne hb, ih]
  | pair _ _ ih => rw [Text.backslashesAtEnd_pair, ih]

/-- Without delimiters and line feeds nothing else can go wrong. -/
theorem escaped_of_even_backslashesAtEnd {quote : Char} (s : Text)
    (hs : ∀ c ∈ s, c ≠ quote ∧ c ≠ '\n') (h : s.backslashesAtEnd % 2 = 0) :
    Escaped quote s := by
  induction s using escapedPrefix.induct quote with
  | case1 => exact .nil
  | case2 => exact absurd h (by decide)
  | case3 => exact absurd rfl (hs '\n' (by simp)).2
  | case4 d t hd _ _ _ ih =>
    rw [Text.backslashesAtEnd_pair] at h
    exact .pair hd (ih (fun e he => hs e (by simp [he])) h)
  | case5 => exact absurd rfl (hs quote (by simp)).1
  | case6 c t hc hq _ _ _ ih =>
    rw [Text.backslashesAtEnd_cons_of_ne hc] at h
    exact .plain hq hc (ih (fun e he => hs e (by simp [he])) h)

/-- One of the information separators U+001C to U+001F. -/
def isInformationSeparator (c : Char) : Bool := 0x1C ≤ c.toNat && c.toNat ≤ 0x1F

/-- The argument is written between quotes because of a separator, and the closing quote
stands behind a backslash that escapes it. -/
def Action.Dangles (a : Action) : Prop :=
  ∃ s ∈ a.argument, (∃ c ∈ s, isInformationSeparator c = true) ∧ s.backslashesAtEnd % 2 = 1

/-- A character that can be read bare can be written bare unless it is a separator. -/
theorem isPlainChar_eq_of_isBareChar {c : Char} (h : isBareChar c = true) :
    isPlainChar c = !isInformationSeparator c := by
  simp only [isBareChar, Bool.and_eq_true, Bool.not_eq_true'] at h
  obtain ⟨⟨⟨comma, single⟩, double⟩, space⟩ := h
  simp [isPlainChar, isInformationSeparator, isSpaceOrSeparator, comma, single, double, space]

theorem Action.wellFormed_iff_not_dangles {a : Action} (readable : a.Readable) :
    a.WellFormed ↔ ¬ a.Dangles := by
  constructor
  · rintro wellFormed ⟨s, hs, ⟨c, hc, separator⟩, odd⟩
    rcases wellFormed s hs with ⟨-, plain⟩ | escaped
    · have bare := isBareChar_of_isPlainChar (plain c hc)
      have := plain c hc
      rw [isPlainChar_eq_of_isBareChar bare, separator] at this
      exact absurd this (by decide)
    · have even := escaped.even_backslashesAtEnd
      omega
  · intro firm s hs
    rcases readable s hs with ⟨hne, bare⟩ | escaped
    · by_cases separators : ∃ c ∈ s, isInformationSeparator c = true
      · have even : s.backslashesAtEnd % 2 = 0 := by
          have notOdd : ¬ s.backslashesAtEnd % 2 = 1 := fun odd => firm ⟨s, hs, separators, odd⟩
          omega
        exact .inr (escaped_of_even_backslashesAtEnd s
          (fun c hc => ne_quote_and_line_feed (bare c hc)) even)
      · refine .inl ⟨hne, fun c hc => ?_⟩
        rw [isPlainChar_eq_of_isBareChar (bare c hc)]
        cases hi : isInformationSeparator c with
        | false => rfl
        | true => exact absurd ⟨c, hc, hi⟩ separators
    · exact .inr escaped

theorem Rule.wellFormed_iff_not_dangles {r : Rule} (readable : r.Readable) :
    r.WellFormed ↔ ¬ ∃ a ∈ r.actions, a.Dangles := by
  constructor
  · rintro wellFormed ⟨a, ha, dangles⟩
    exact (Action.wellFormed_iff_not_dangles (readable.actions a ha)).mp
      (wellFormed.actions a ha) dangles
  · intro firm
    refine readable.wellFormed fun a ha => ?_
    exact (Action.wellFormed_iff_not_dangles (readable.actions a ha)).mpr
      fun dangles => firm ⟨a, ha, dangles⟩

/-- The grammar rejects the canonical text of a readable rule that is not well formed. -/
theorem Rule.parse_render_rejected {r : Rule} (readable : r.Readable) (h : ¬ r.WellFormed) :
    ∃ e, (Model.parse (Model.render r) : Except ReadError Rule) = .error (.rejected e) := by
  cases tree : Node.parse .secRule r.render with
  | error e => exact ⟨e, by simp [Model.parse, Model.kind, Model.render, tree]⟩
  | ok node =>
    obtain ⟨x, hx, -⟩ := Node.parse_secRule_eq_ok_iff.mp tree
    exact absurd (wellFormed_of_text_eq_render readable hx) h

/-- What becomes of a rule that was read and is written and read again: it comes back as it
was if no argument dangles, and its canonical text is rejected otherwise. -/
theorem Rule.parse_render_of_parse {s : Text} {r : Rule} (h : Model.parse s = .ok r) :
    ((¬ ∃ a ∈ r.actions, a.Dangles) → Model.parse (Model.render r) = .ok r) ∧
    ((∃ a ∈ r.actions, a.Dangles) →
      ∃ e, (Model.parse (Model.render r) : Except ReadError Rule) = .error (.rejected e)) := by
  have readable := readable_of_parse h
  have wellFormed := wellFormed_iff_not_dangles readable
  constructor
  · intro firm
    exact parse_render (wellFormed.mpr firm)
  · intro dangles
    exact parse_render_rejected readable fun hr => wellFormed.mp hr dangles

/-- A rule whose only action has the argument. -/
def Rule.withMessage (argument : Text) : Rule :=
  ⟨[⟨.args, .whole⟩], ⟨.rx, ['a'], false⟩, [⟨.msg, some argument⟩]⟩

/-- Behind a separator two backslashes are a pair, and one dangles. -/
theorem Rule.parse_render_of_parse_separator :
    (Model.parse "SecRule ARGS \"@rx a\" \"msg:\x1c\\\\\"".toList =
        .ok (withMessage "\x1c\\\\".toList) ∧
      Model.parse (Model.render (withMessage "\x1c\\\\".toList)) =
        .ok (withMessage "\x1c\\\\".toList)) ∧
    (Model.parse "SecRule ARGS \"@rx a\" \"msg:\x1c\\\"".toList =
        .ok (withMessage "\x1c\\".toList) ∧
      ∃ e, (Model.parse (Model.render (withMessage "\x1c\\".toList)) : Except ReadError Rule) =
        .error (.rejected e)) := by
  have paired : Model.parse "SecRule ARGS \"@rx a\" \"msg:\x1c\\\\\"".toList =
      .ok (withMessage "\x1c\\\\".toList) := eq_ok_of_toOption (by decide +kernel)
  have single : Model.parse "SecRule ARGS \"@rx a\" \"msg:\x1c\\\"".toList =
      .ok (withMessage "\x1c\\".toList) := eq_ok_of_toOption (by decide +kernel)
  refine ⟨⟨paired, (parse_render_of_parse paired).1 ?_⟩, single,
    (parse_render_of_parse single).2 ?_⟩
  · rintro ⟨a, ha, s, hs, -, odd⟩
    cases List.mem_singleton.mp ha
    cases hs
    exact absurd odd (by decide +kernel)
  · exact ⟨_, List.mem_cons_self, _, rfl, ⟨'\x1c', List.mem_cons_self, by decide⟩,
      by decide +kernel⟩

/-- So not every rule that can be read is read from its canonical text again. -/
theorem Rule.not_forall_parse_render :
    ¬ ∀ (s : Text) (r : Rule), Model.parse s = .ok r → Model.parse (Model.render r) = .ok r := by
  intro all
  have back := all "SecRule ARGS \"@rx a\" \"msg:\x1c\\\"".toList (withMessage "\x1c\\".toList)
    (eq_ok_of_toOption (by decide +kernel))
  exact absurd (congrArg Except.toOption back) (by decide +kernel)

end WafRules
