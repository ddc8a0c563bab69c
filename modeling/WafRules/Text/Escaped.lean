import WafRules.Text.Basic

/-!
# Escaped text

Text that may stand between two delimiters: a row of units, where a unit is a
character other than the delimiter and the backslash, or a backslash with any
character behind it but the line feed. The escapes are kept as they are written, so
nothing is decoded here. The longest escaped beginning of a text is found without
looking back, because no unit begins another. The main statements are that it is
escaped, and that escaped text in front of its delimiter is read in full.
-/

namespace WafRules

/-- A row of units for the given delimiter. -/
inductive Escaped (quote : Char) : Text → Prop
  | nil : Escaped quote []
  | plain {c : Char} {s : Text} :
      c ≠ quote → c ≠ '\\' → Escaped quote s → Escaped quote (c :: s)
  | pair {c : Char} {s : Text} :
      c ≠ '\n' → Escaped quote s → Escaped quote ('\\' :: c :: s)

/-- The longest beginning that is a row of units, and what is left behind it. -/
def escapedPrefix (quote : Char) : Text → Text × Text
  | [] => ([], [])
  | c :: s =>
    if c = '\\' then
      match s with
      | [] => ([], [c])
      | d :: t =>
        if d = '\n' then ([], c :: s)
        else let (w, r) := escapedPrefix quote t; (c :: d :: w, r)
    else if c = quote then ([], c :: s)
    else let (w, r) := escapedPrefix quote s; (c :: w, r)

theorem escapedPrefix_append (quote : Char) (s : Text) :
    (escapedPrefix quote s).1 ++ (escapedPrefix quote s).2 = s := by
  fun_induction escapedPrefix quote s <;> simp_all

theorem escaped_escapedPrefix (quote : Char) (s : Text) :
    Escaped quote (escapedPrefix quote s).1 := by
  fun_induction escapedPrefix quote s with
  | case1 => exact .nil
  | case2 => exact .nil
  | case3 => exact .nil
  | case4 d t hd w r hw ih => rw [hw] at ih; exact .pair hd ih
  | case5 => exact .nil
  | case6 c s hc hq w r hw ih => rw [hw] at ih; exact .plain hq hc ih

theorem escapedPrefix_plain {quote c : Char} (hq : c ≠ quote) (hb : c ≠ '\\') (s : Text) :
    escapedPrefix quote (c :: s) =
      (c :: (escapedPrefix quote s).1, (escapedPrefix quote s).2) := by
  rw [escapedPrefix.eq_def]
  simp [hq, hb]

theorem escapedPrefix_pair {quote c : Char} (hc : c ≠ '\n') (s : Text) :
    escapedPrefix quote ('\\' :: c :: s) =
      ('\\' :: c :: (escapedPrefix quote s).1, (escapedPrefix quote s).2) := by
  simp [escapedPrefix, hc]

theorem escapedPrefix_quote {quote : Char} (hquote : quote ≠ '\\') (s : Text) :
    escapedPrefix quote (quote :: s) = ([], quote :: s) := by
  rw [escapedPrefix.eq_def]
  simp [hquote]

/-- Escaped text is its own longest escaped beginning. -/
theorem escapedPrefix_of_escaped {quote : Char} {s : Text} (h : Escaped quote s) :
    escapedPrefix quote s = (s, []) := by
  induction h with
  | nil => rfl
  | plain hq hb _ ih => rw [escapedPrefix_plain hq hb, ih]
  | pair hc _ ih => rw [escapedPrefix_pair hc, ih]

/-- The delimiter ends escaped text. -/
theorem escapedPrefix_append_quote {quote : Char} (hquote : quote ≠ '\\') {s : Text}
    (h : Escaped quote s) (r : Text) :
    escapedPrefix quote (s ++ quote :: r) = (s, quote :: r) := by
  induction h with
  | nil => exact escapedPrefix_quote hquote r
  | plain hq hb _ ih => rw [List.cons_append, escapedPrefix_plain hq hb, ih]
  | pair hc _ ih => rw [List.cons_append, List.cons_append, escapedPrefix_pair hc, ih]

theorem escaped_iff {quote : Char} {s : Text} :
    Escaped quote s ↔ (escapedPrefix quote s).2 = [] := by
  constructor
  · intro h
    rw [escapedPrefix_of_escaped h]
  · intro h
    have whole := escapedPrefix_append quote s
    rw [h, List.append_nil] at whole
    exact whole ▸ escaped_escapedPrefix quote s

instance (quote : Char) (s : Text) : Decidable (Escaped quote s) :=
  decidable_of_iff _ escaped_iff.symm

/-- A backslash at the end escapes nothing, and one before a line feed may not. -/
example : ¬ Escaped '"' ['a', '\\'] ∧ ¬ Escaped '"' ['\\', '\n'] ∧
    Escaped '"' ['\\', '"', '\n'] := by decide

end WafRules
