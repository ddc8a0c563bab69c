import WafRules.Grammar.Rules

/-!
# The language of the grammar

The grammar read as a description of texts and not as a program. Alternatives have no
order, something optional or repeated may be left out or stop after any number of times,
and a token may be any word of its class, not the longest. What follows a word matters
to a lookahead alone.

A run only takes words that are described. Nothing is said here about described words
that a run might not take.
-/

namespace WafRules

/-- The words of a class. -/
def Token.Language : Token → Text → Prop
  | inputName, w => ∃ c s, w = c :: s ∧ c.isAlpha = true ∧ ∀ d ∈ s, isWordChar d = true
  | key, w => w ≠ [] ∧ ∀ c ∈ w, isKeyChar c = true
  | implicitStart, w => ∃ c, w = [c] ∧ isImplicitStart c = true
  | operatorName, w => ∃ s, w = '@' :: s ∧ s ≠ [] ∧ ∀ c ∈ s, c.isAlphanum = true
  | operatorArgument, w => Escaped '"' w
  | actionName, w => w ≠ [] ∧ ∀ c ∈ w, c.isAlpha = true
  | quotedArgument, w => ∃ s, w = '\'' :: (s ++ ['\'']) ∧ Escaped '\'' s
  | bareArgument, w => w ≠ [] ∧ ∀ c ∈ w, isBareChar c = true

/-- Whether a character behind a word of the class could belong to a longer one. -/
def Token.goesOnWith : Token → Char → Bool
  | inputName, c => isWordChar c
  | key, c => isKeyChar c
  | implicitStart, _ => false
  | operatorName, c => c.isAlphanum
  | operatorArgument, c => c != '"'
  | actionName, c => c.isAlpha
  | quotedArgument, _ => false
  | bareArgument, c => isBareChar c

/-- What follows does not make a word of the class longer. -/
def Token.EndsBefore (t : Token) (r : Text) : Prop := ∀ c ∈ r.head?, t.goesOnWith c = false

theorem Token.endsBefore_nil (t : Token) : t.EndsBefore [] := by
  intro c hc
  cases hc

theorem Token.endsBefore_cons {t : Token} {c : Char} {r : Text} :
    t.EndsBefore (c :: r) ↔ t.goesOnWith c = false := by
  simp [EndsBefore]

/-- `e.Describes w r`: the word `w` is one that the expression describes, when `r` follows. -/
inductive Expr.Describes : Expr → Text → Text → Prop
  | literal (w r : Text) : Describes (.literal w) w r
  | token {t : Token} {w : Text} (r : Text) : t.Language w → Describes (.token t) w r
  | seq {e f : Expr} {u v r : Text} :
      Describes e u (v ++ r) → Describes f v r → Describes (.seq e f) (u ++ v) r
  | first {e f : Expr} {w r : Text} : Describes e w r → Describes (.either e f) w r
  | second {e f : Expr} {w r : Text} : Describes f w r → Describes (.either e f) w r
  | ahead {e : Expr} {w r : Text} : Describes e w r → Describes (.ahead e) [] (w ++ r)
  | absent {e : Expr} (r : Text) : Describes (.optional e) [] r
  | present {e : Expr} {w r : Text} : Describes e w r → Describes (.optional e) w r
  | stop {e : Expr} (r : Text) : Describes (.many e) [] r
  | again {e : Expr} {u v r : Text} :
      Describes e u (v ++ r) → Describes (.many e) v r → Describes (.many e) (u ++ v) r
  | manyOne {e : Expr} {u v r : Text} :
      Describes e u (v ++ r) → Describes (.many e) v r → Describes (.manyOne e) (u ++ v) r
  | rule {name : RuleName} {e : Expr} {w r : Text} :
      Describes e w r → Describes (.rule name e) w r

namespace Expr

variable {e f : Expr} {w r : Text}

theorem describes_literal {word : Text} : (literal word).Describes w r ↔ w = word := by
  constructor
  · rintro ⟨⟩
    rfl
  · rintro rfl
    exact .literal w r

theorem describes_token {t : Token} : (token t).Describes w r ↔ t.Language w := by
  constructor
  · rintro ⟨⟩
    assumption
  · exact .token r

theorem describes_seq : (seq e f).Describes w r ↔
    ∃ u v, w = u ++ v ∧ e.Describes u (v ++ r) ∧ f.Describes v r := by
  constructor
  · intro h
    cases h with
    | seq he hf => exact ⟨_, _, rfl, he, hf⟩
  · rintro ⟨u, v, rfl, he, hf⟩
    exact .seq he hf

theorem describes_either : (either e f).Describes w r ↔ e.Describes w r ∨ f.Describes w r := by
  constructor
  · intro h
    cases h with
    | first he => exact .inl he
    | second hf => exact .inr hf
  · rintro (he | hf)
    · exact .first he
    · exact .second hf

theorem describes_ahead : (ahead e).Describes w r ↔
    w = [] ∧ ∃ u v, r = u ++ v ∧ e.Describes u v := by
  constructor
  · intro h
    cases h with
    | ahead he => exact ⟨rfl, _, _, rfl, he⟩
  · rintro ⟨rfl, u, v, rfl, he⟩
    exact .ahead he

theorem describes_optional : (optional e).Describes w r ↔ w = [] ∨ e.Describes w r := by
  constructor
  · intro h
    cases h with
    | absent => exact .inl rfl
    | present he => exact .inr he
  · rintro (rfl | he)
    · exact .absent r
    · exact .present he

theorem describes_manyOne : (manyOne e).Describes w r ↔
    ∃ u v, w = u ++ v ∧ e.Describes u (v ++ r) ∧ (many e).Describes v r := by
  constructor
  · intro h
    cases h with
    | manyOne he tail => exact ⟨_, _, rfl, he, tail⟩
  · rintro ⟨u, v, rfl, he, tail⟩
    exact .manyOne he tail

theorem describes_rule {name : RuleName} : (rule name e).Describes w r ↔ e.Describes w r := by
  constructor
  · rintro ⟨⟩
    assumption
  · exact .rule

/-- A repetition is a row of its items. -/
theorem exists_row_of_describes_many {α : Type} (text : α → Text)
    (item : ∀ u s, e.Describes u s → ∃ x, text x = u) (h : (many e).Describes w r) :
    ∃ xs : List α, xs.flatMap text = w := by
  generalize he : many e = repeated at h
  induction h with
  | stop => exact ⟨[], rfl⟩
  | again hu _ _ ih =>
    cases he
    obtain ⟨x, rfl⟩ := item _ _ hu
    obtain ⟨xs, rfl⟩ := ih rfl
    exact ⟨x :: xs, List.flatMap_cons⟩
  | _ => cases he

end Expr

theorem takeRun?_eq_some {p : Char → Bool} {s w r : Text} (h : takeRun? p s = some (w, r)) :
    w ≠ [] ∧ ∀ c ∈ w, p c = true := by
  unfold takeRun? at h
  split at h
  · contradiction
  · rename_i hne
    cases h
    exact ⟨by simpa using hne, fun c hc => List.all_eq_true.mp List.all_takeWhile c hc⟩

/-- A character of a class is none that is not of the class. -/
theorem ne_of_class {p : Char → Bool} {c d : Char} (hc : p c = true) (hd : p d = false) :
    c ≠ d := by
  rintro rfl
  rw [hc] at hd
  contradiction

/-- A character of a class without blanks is not blank. -/
theorem isBlank_eq_false_of_class {p : Char → Bool} {c : Char} (hc : p c = true)
    (space : p ' ' = false) (tab : p '\t' = false) : isBlank c = false := by
  cases hb : isBlank c with
  | false => rfl
  | true =>
    rcases isBlank_iff.mp hb with rfl | rfl
    · exact absurd rfl (ne_of_class hc space)
    · exact absurd rfl (ne_of_class hc tab)

/-- A run of a class that is not empty begins with a character of the class. -/
theorem head_run {p : Char → Bool} {w : Text} (hne : w ≠ []) (hw : ∀ c ∈ w, p c = true)
    (r : Text) : ∀ c ∈ (w ++ r).head?, p c = true := by
  cases w with
  | nil => exact absurd rfl hne
  | cons c w =>
    intro d hd
    cases hd
    exact hw c List.mem_cons_self

theorem takeWhile_run {p : Char → Bool} {w r : Text} (hw : ∀ c ∈ w, p c = true)
    (hr : ∀ c ∈ r.head?, p c = false) :
    (w ++ r).takeWhile p = w ∧ (w ++ r).dropWhile p = r := by
  rw [List.takeWhile_append_of_pos hw, List.dropWhile_append_of_pos hw]
  cases r with
  | nil => simp
  | cons c r => simp [hr c rfl]

theorem takeRun?_run {p : Char → Bool} {w r : Text} (hne : w ≠ []) (hw : ∀ c ∈ w, p c = true)
    (hr : ∀ c ∈ r.head?, p c = false) : takeRun? p (w ++ r) = some (w, r) := by
  obtain ⟨ht, hd⟩ := takeWhile_run hw hr
  rw [takeRun?, ht, hd]
  simp [hne]

namespace Token

/-- A scanned word is of the class. -/
theorem language_of_scan {t : Token} {s w r : Text} (h : t.scan s = some (w, r)) :
    t.Language w := by
  cases t with
  | key => exact takeRun?_eq_some h
  | actionName => exact takeRun?_eq_some h
  | bareArgument => exact takeRun?_eq_some h
  | operatorArgument =>
    have hw := escaped_escapedPrefix '"' s
    rwa [show escapedPrefix '"' s = (w, r) from Option.some.inj h] at hw
  | inputName =>
    cases s with
    | nil => contradiction
    | cons c s =>
      simp only [scan] at h
      split at h
      · rename_i hc
        cases h
        exact ⟨c, _, rfl, hc, fun d hd => List.all_eq_true.mp List.all_takeWhile d hd⟩
      · contradiction
  | implicitStart =>
    cases s with
    | nil => contradiction
    | cons c s =>
      simp only [scan] at h
      split at h
      · rename_i hc
        cases h
        exact ⟨c, rfl, hc⟩
      · contradiction
  | operatorName =>
    cases s with
    | nil => contradiction
    | cons c s =>
      simp only [scan] at h
      split at h
      · rename_i hc
        obtain ⟨⟨w', r'⟩, hw, he⟩ := Option.map_eq_some_iff.mp h
        cases he
        exact ⟨w', by rw [hc], takeRun?_eq_some hw⟩
      · contradiction
  | quotedArgument =>
    cases s with
    | nil => contradiction
    | cons c s =>
      have hw := escaped_escapedPrefix '\'' s
      simp only [scan] at h
      split at h
      · rename_i hc
        split at h
        · rename_i u d v hs
          split at h
          · rename_i hd
            cases h
            rw [hs] at hw
            exact ⟨u, by rw [hc, hd], hw⟩
          · contradiction
        · contradiction
      · contradiction

/-- A word of the class is scanned in full if nothing behind it makes it longer. -/
theorem scan_of_language {t : Token} {w r : Text} (h : t.Language w) (hr : t.EndsBefore r) :
    t.scan (w ++ r) = some (w, r) := by
  cases t with
  | key => exact takeRun?_run h.1 h.2 hr
  | actionName => exact takeRun?_run h.1 h.2 hr
  | bareArgument => exact takeRun?_run h.1 h.2 hr
  | operatorArgument =>
    cases r with
    | nil => simp [scan, escapedPrefix_of_escaped h]
    | cons c r =>
      have hc : c = '"' := by simpa [goesOnWith] using endsBefore_cons.mp hr
      subst hc
      simp [scan, escapedPrefix_append_quote (by decide) h r]
  | inputName =>
    obtain ⟨c, s, rfl, hc, hs⟩ := h
    obtain ⟨ht, hd⟩ := takeWhile_run hs hr
    simp [scan, hc, ht, hd]
  | implicitStart =>
    obtain ⟨c, rfl, hc⟩ := h
    simp [scan, hc]
  | operatorName =>
    obtain ⟨s, rfl, hne, hs⟩ := h
    simp [scan, takeRun?_run hne hs hr]
  | quotedArgument =>
    obtain ⟨s, rfl, hs⟩ := h
    simp [scan, escapedPrefix_append_quote (by decide) hs r]

end Token

namespace Expr

theorem split_repeated (e : Expr) (fuel : Text) (start : Nat) (s : Text) :
    (Match.repeated e.run fuel start s).taken ++ (Match.repeated e.run fuel start s).rest = s :=
  Match.taken_append_rest_repeated (fun _ _ _ => taken_append_rest) fuel start s

theorem describes_repeated {e : Expr}
    (h : ∀ start s m, e.run start s = some m → e.Describes m.taken m.rest)
    (fuel : Text) (start : Nat) (s : Text) :
    (Expr.many e).Describes (Match.repeated e.run fuel start s).taken
      (Match.repeated e.run fuel start s).rest := by
  induction fuel generalizing start s with
  | nil => exact .stop s
  | cons _ fuel ih =>
    unfold Match.repeated
    split
    · exact .stop s
    · split
      · exact .stop s
      · rename_i m hm
        split
        · exact .stop s
        · have tail := ih (start + m.taken.length) m.rest
          refine .again ?_ tail
          change e.Describes m.taken (_ ++ (Match.repeated e.run fuel _ m.rest).rest)
          rw [split_repeated]
          exact h start s m hm

/-- What a run takes is described. -/
theorem describes_of_run {e : Expr} {start : Nat} {s : Text} {m : Match}
    (h : e.run start s = some m) : e.Describes m.taken m.rest := by
  induction e generalizing start s m with
  | literal w =>
    simp only [run] at h
    split at h
    · cases h; exact .literal w _
    · contradiction
  | token t =>
    obtain ⟨⟨w, r⟩, hr, rfl⟩ := Option.map_eq_some_iff.mp h
    exact .token r (Token.language_of_scan hr)
  | seq e f ihe ihf =>
    obtain ⟨m₁, h₁, h₂⟩ := Option.bind_eq_some_iff.mp h
    obtain ⟨m₂, h₃, rfl⟩ := Option.map_eq_some_iff.mp h₂
    refine .seq ?_ (ihf h₃)
    change e.Describes m₁.taken (m₂.taken ++ m₂.rest)
    rw [taken_append_rest h₃]
    exact ihe h₁
  | either e f ihe ihf =>
    rcases Option.or_eq_some_iff.mp h with h | ⟨-, h⟩
    · exact .first (ihe h)
    · exact .second (ihf h)
  | ahead e ih =>
    obtain ⟨m', h', rfl⟩ := Option.map_eq_some_iff.mp h
    have hs := ih h'
    have whole := taken_append_rest h'
    exact whole ▸ .ahead hs
  | optional e ih =>
    simp only [run] at h
    split at h
    · cases h; exact .absent s
    · cases he : e.run start s with
      | none => rw [he] at h; cases h; exact .absent s
      | some m' => rw [he] at h; cases h; exact .present (ih he)
  | many e ih =>
    cases h
    exact describes_repeated (fun _ _ _ => ih) s start s
  | manyOne e ih =>
    simp only [run] at h
    split at h
    · contradiction
    · obtain ⟨m₁, h₁, rfl⟩ := Option.map_eq_some_iff.mp h
      have tail := describes_repeated (fun _ _ _ => ih) m₁.rest (start + m₁.taken.length) m₁.rest
      refine .manyOne ?_ tail
      change e.Describes m₁.taken (_ ++ (Match.repeated e.run m₁.rest _ m₁.rest).rest)
      rw [split_repeated]
      exact ih h₁
  | rule name e ih =>
    obtain ⟨m', h', rfl⟩ := Option.map_eq_some_iff.mp h
    simpa using Describes.rule (ih h')

end Expr

end WafRules
