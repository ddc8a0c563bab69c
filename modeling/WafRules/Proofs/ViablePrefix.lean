import WafRules.Proofs.Acceptance
import WafRules.Proofs.Lines

/-!
# Where an error is

The place of an error is never behind the mistake: what stands in front of it can go on to a
text that is accepted. A failure is only ever recorded where a part of the rule may begin,
behind parts that are described, and from each of these places the rule can be finished.
This holds of all the places that are tried, not of the furthest one alone, so neither the
order of the alternatives nor the order of the failures is looked at.

A finished rule has to be accepted whatever was behind the place before. Only the body of an
operator looks at what follows, and the quote behind it satisfies the lookahead.
-/

namespace WafRules

/-- No class of words is empty. -/
theorem Token.exists_language (t : Token) : ∃ w, t.Language w := by
  cases t with
  | inputName => exact ⟨['A'], 'A', [], rfl, by decide, by simp⟩
  | key => exact ⟨['k'], by simp, by simp [isKeyChar]; decide⟩
  | implicitStart => exact ⟨['x'], 'x', rfl, by decide⟩
  | operatorName => exact ⟨['@', 'x'], ['x'], rfl, by simp, by simp⟩
  | operatorArgument => exact ⟨[], .nil⟩
  | actionName => exact ⟨['a'], by simp, by simp⟩
  | quotedArgument => exact ⟨['\'', '\''], [], rfl, .nil⟩
  | bareArgument => exact ⟨['1'], by simp, by simp; decide⟩

namespace Expr

/-- Behind `v` and in front of `r` a part of the expression may begin. -/
inductive Reaches : Expr → Text → Text → Prop
  | here (e : Expr) (r : Text) : Reaches e [] r
  | seqFirst {e f : Expr} {v r : Text} : Reaches e v r → Reaches (.seq e f) v r
  | seqSecond {e f : Expr} {u v r : Text} :
      e.Describes u (v ++ r) → Reaches f v r → Reaches (.seq e f) (u ++ v) r
  | first {e f : Expr} {v r : Text} : Reaches e v r → Reaches (.either e f) v r
  | second {e f : Expr} {v r : Text} : Reaches f v r → Reaches (.either e f) v r
  | ahead {e : Expr} {v r : Text} : Reaches e v r → Reaches (.ahead e) v r
  | optional {e : Expr} {v r : Text} : Reaches e v r → Reaches (.optional e) v r
  | many {e : Expr} {v r : Text} : Reaches e v r → Reaches (.many e) v r
  | again {e : Expr} {u v r : Text} :
      e.Describes u (v ++ r) → Reaches (.many e) v r → Reaches (.many e) (u ++ v) r
  | manyOne {e : Expr} {v r : Text} : Reaches (.many e) v r → Reaches (.manyOne e) v r
  | rule {name : RuleName} {e : Expr} {v r : Text} : Reaches e v r → Reaches (.rule name e) v r

/-- The failure is at a place of the expression, which is read at the beginning of the text. -/
def BlamedFor (e : Expr) (s : Text) (f : Failure) : Prop :=
  ∃ v, v ++ f.rest = s ∧ e.Reaches v f.rest

namespace BlamedFor

variable {e e' : Expr} {s : Text} {f : Failure}

theorem here (hf : f.rest = s) : e.BlamedFor s f := ⟨[], hf, .here e f.rest⟩

theorem congr (lift : ∀ {v r}, e.Reaches v r → e'.Reaches v r) (h : e.BlamedFor s f) :
    e'.BlamedFor s f := by
  obtain ⟨v, whole, reached⟩ := h
  exact ⟨v, whole, lift reached⟩

/-- Behind a part that was taken. -/
theorem behind {start : Nat} {m : Match} {g : Expr} (hm : e.run start s = some m)
    (lift : ∀ {v r}, e.Describes m.taken (v ++ r) → e'.Reaches v r →
      g.Reaches (m.taken ++ v) r)
    (h : e'.BlamedFor m.rest f) : g.BlamedFor s f := by
  obtain ⟨v, whole, reached⟩ := h
  have described := describes_of_run hm
  rw [← whole] at described
  refine ⟨m.taken ++ v, ?_, lift described reached⟩
  rw [List.append_assoc, whole, taken_append_rest hm]

end BlamedFor

/-- An item that was taken is described, so the later rounds of a repetition are places too. -/
theorem blamedFor_of_ofRepeated {e : Expr} {fuel s : Text} {record : Option Failure} {f : Failure}
    (item : ∀ {s record}, e.blame s record = some f → record = some f ∨ e.BlamedFor s f)
    (h : Failure.ofRepeated (e.run 0) e.blame fuel s record = some f) :
    record = some f ∨ (Expr.many e).BlamedFor s f := by
  have round {s : Text} {record : Option Failure} (h : e.blame s record = some f) :
      record = some f ∨ (Expr.many e).BlamedFor s f :=
    (item h).imp_right (.congr .many)
  induction fuel generalizing s record with
  | nil => exact .inl h
  | cons _ fuel ih =>
    simp only [Failure.ofRepeated] at h
    split at h
    · exact .inl h
    · split at h
      · exact round h
      · rename_i m hm
        split at h
        · exact round h
        · rcases ih h with h | later
          · exact round h
          · exact .inr (later.behind hm .again)

/-- A failure that is put on record is at a place of the expression. -/
theorem blamedFor_of_blame {e : Expr} {s : Text} {record : Option Failure} {f : Failure}
    (h : e.blame s record = some f) : record = some f ∨ e.BlamedFor s f := by
  induction e generalizing s record with
  | literal word =>
    simp only [blame] at h
    split at h
    · exact .inl h
    · cases h
      exact (Failure.rest_ofLiteral word s record).symm.imp_right .here
  | token t => exact .inl h
  | seq e₁ e₂ ih₁ ih₂ =>
    simp only [blame] at h
    split at h
    · exact (ih₁ h).imp_right (.congr .seqFirst)
    · rename_i m hm
      rcases ih₂ h with h | later
      · exact (ih₁ h).imp_right (.congr .seqFirst)
      · exact .inr (later.behind hm .seqSecond)
  | either e₁ e₂ ih₁ ih₂ =>
    simp only [blame] at h
    split at h
    · rcases ih₂ h with h | later
      · exact (ih₁ h).imp_right (.congr .first)
      · exact .inr (later.congr .second)
    · exact (ih₁ h).imp_right (.congr .first)
  | ahead e ih => exact (ih h).imp_right (.congr .ahead)
  | optional e ih =>
    simp only [blame] at h
    split at h
    · exact .inl h
    · exact (ih h).imp_right (.congr .optional)
  | many e ih => exact blamedFor_of_ofRepeated ih h
  | manyOne e ih => exact (blamedFor_of_ofRepeated ih h).imp_right (.congr .manyOne)
  | rule name e ih =>
    simp only [blame] at h
    split at h
    · cases h
      rcases Failure.rest_ofRule name s (e.blame s record) with own | kept
      · exact .inr (.here own)
      · exact (ih kept).imp_right (.congr .rule)
    · exact (ih h).imp_right (.congr .rule)

theorem describes_many_of_manyOne {e : Expr} {w r : Text}
    (h : (Expr.manyOne e).Describes w r) : (Expr.many e).Describes w r := by
  obtain ⟨u, v, rfl, hu, hv⟩ := describes_manyOne.mp h
  exact .again hu hv

/-- From every place in it the expression can be finished, whatever follows then. -/
def Completable (e : Expr) : Prop :=
  ∀ v r, e.Reaches v r → ∃ w, ∀ t, e.Describes (v ++ w) t

/-- What follows does not matter to the expression. -/
def Steady (e : Expr) : Prop := ∀ w r t, e.Describes w r → e.Describes w t

/-- What the expression describes is described in front of any word of the other one too. -/
def StaysBefore (e f : Expr) : Prop :=
  ∀ u r v t, e.Describes u r → f.Describes v t → e.Describes u (v ++ t)

namespace Completable

variable {e f : Expr}

/-- An expression begins in front of itself, so it describes something. -/
theorem exists_describes (h : e.Completable) : ∃ w, ∀ t, e.Describes w t :=
  h [] [] (.here e [])

theorem literal (word : Text) : (Expr.literal word).Completable := by
  rintro v r ⟨⟩
  exact ⟨word, .literal word⟩

theorem token (t : Token) : (Expr.token t).Completable := by
  rintro v r ⟨⟩
  obtain ⟨w, hw⟩ := t.exists_language
  exact ⟨w, fun r => .token r hw⟩

theorem seq (he : e.Completable) (hf : f.Completable) (stays : e.StaysBefore f) :
    (Expr.seq e f).Completable := by
  intro v r h
  obtain ⟨w', hw'⟩ := hf.exists_describes
  cases h with
  | here =>
    obtain ⟨w, hw⟩ := he.exists_describes
    exact ⟨w ++ w', fun t => .seq (u := w) (hw _) (hw' t)⟩
  | seqFirst h =>
    obtain ⟨w, hw⟩ := he v r h
    refine ⟨w ++ w', fun t => ?_⟩
    rw [← List.append_assoc]
    exact .seq (hw _) (hw' t)
  | @seqSecond _ _ u v _ hu h =>
    obtain ⟨w, hw⟩ := hf v r h
    refine ⟨w, fun t => ?_⟩
    rw [List.append_assoc]
    exact .seq (stays u _ _ t hu (hw t)) (hw t)

theorem either (he : e.Completable) (hf : f.Completable) : (Expr.either e f).Completable := by
  intro v r h
  cases h with
  | here =>
    obtain ⟨w, hw⟩ := he.exists_describes
    exact ⟨w, fun t => .first (hw t)⟩
  | first h =>
    obtain ⟨w, hw⟩ := he v r h
    exact ⟨w, fun t => .first (hw t)⟩
  | second h =>
    obtain ⟨w, hw⟩ := hf v r h
    exact ⟨w, fun t => .second (hw t)⟩

theorem optional (he : e.Completable) : (Expr.optional e).Completable := by
  intro v r h
  cases h with
  | here => exact ⟨[], .absent⟩
  | optional h =>
    obtain ⟨w, hw⟩ := he v r h
    exact ⟨w, fun t => .present (hw t)⟩

/-- A repetition can be finished with at least one item in it. The rounds in front of the place
are kept as they are. -/
theorem manyOne_of_many (he : e.Completable) (steady : e.Steady) {v r : Text}
    (h : (Expr.many e).Reaches v r) : ∃ w, ∀ t, (Expr.manyOne e).Describes (v ++ w) t := by
  have once {v : Text} (hv : ∀ t, e.Describes v t) (t : Text) :
      (Expr.manyOne e).Describes v t := by
    have row : (Expr.manyOne e).Describes (v ++ []) t := .manyOne (hv _) (.stop t)
    rwa [List.append_nil] at row
  generalize hm : Expr.many e = repeated at h
  induction h with
  | here =>
    obtain ⟨w, hw⟩ := he.exists_describes
    exact ⟨w, once hw⟩
  | many h =>
    cases hm
    obtain ⟨w, hw⟩ := he _ _ h
    exact ⟨w, once hw⟩
  | again hu _ ih =>
    cases hm
    obtain ⟨w, hw⟩ := ih rfl
    refine ⟨w, fun t => ?_⟩
    rw [List.append_assoc]
    exact .manyOne (steady _ _ _ hu) (describes_many_of_manyOne (hw t))
  | _ => cases hm

theorem manyOne (he : e.Completable) (steady : e.Steady) : (Expr.manyOne e).Completable := by
  intro v r h
  cases h with
  | here => exact he.manyOne_of_many steady (.here _ r)
  | manyOne h => exact he.manyOne_of_many steady h

theorem many (he : e.Completable) (steady : e.Steady) : (Expr.many e).Completable := by
  intro v r h
  obtain ⟨w, hw⟩ := he.manyOne_of_many steady h
  exact ⟨w, fun t => describes_many_of_manyOne (hw t)⟩

theorem rule (name : RuleName) (he : e.Completable) : (Expr.rule name e).Completable := by
  intro v r h
  cases h with
  | here =>
    obtain ⟨w, hw⟩ := he.exists_describes
    exact ⟨w, fun t => .rule (hw t)⟩
  | rule h =>
    obtain ⟨w, hw⟩ := he v r h
    exact ⟨w, fun t => .rule (hw t)⟩

end Completable

theorem Steady.staysBefore {e : Expr} (h : e.Steady) (f : Expr) : e.StaysBefore f :=
  fun u r _ _ hu _ => h u r _ hu

/-- The expression can be finished from all its places, and nothing that follows undoes it. -/
structure Viable (e : Expr) : Prop where
  completable : e.Completable
  steady : e.Steady

namespace Viable

variable {e f : Expr}

theorem literal (word : Text) : (Expr.literal word).Viable := by
  refine ⟨.literal word, fun w r t h => ?_⟩
  rw [describes_literal] at h ⊢
  exact h

theorem token (t : Token) : (Expr.token t).Viable := by
  refine ⟨.token t, fun w r s h => ?_⟩
  rw [describes_token] at h ⊢
  exact h

/-- The first part need not be steady if it can stand in front of the second one. -/
theorem seq_of_staysBefore (he : e.Completable) (stays : e.StaysBefore f) (hf : f.Viable) :
    (Expr.seq e f).Viable := by
  refine ⟨he.seq hf.completable stays, fun w r t h => ?_⟩
  obtain ⟨u, v, rfl, hu, hv⟩ := describes_seq.mp h
  have tail := hf.steady v r t hv
  exact .seq (stays u _ v t hu tail) tail

theorem seq (he : e.Viable) (hf : f.Viable) : (Expr.seq e f).Viable :=
  seq_of_staysBefore he.completable (he.steady.staysBefore f) hf

theorem either (he : e.Viable) (hf : f.Viable) : (Expr.either e f).Viable := by
  refine ⟨he.completable.either hf.completable, fun w r t h => ?_⟩
  rw [describes_either] at h ⊢
  exact h.imp (he.steady w r t) (hf.steady w r t)

theorem optional (he : e.Viable) : (Expr.optional e).Viable := by
  refine ⟨he.completable.optional, fun w r t h => ?_⟩
  rw [describes_optional] at h ⊢
  exact h.imp_right (he.steady w r t)

theorem many (he : e.Viable) : (Expr.many e).Viable := by
  refine ⟨he.completable.many he.steady, fun w r t h => ?_⟩
  generalize hm : Expr.many e = repeated at h
  induction h with
  | stop => exact .stop t
  | again hu _ _ ih =>
    cases hm
    exact .again (he.steady _ _ _ hu) (ih rfl)
  | _ => cases hm

theorem manyOne (he : e.Viable) : (Expr.manyOne e).Viable := by
  refine ⟨he.completable.manyOne he.steady, fun w r t h => ?_⟩
  obtain ⟨u, v, rfl, hu, hv⟩ := describes_manyOne.mp h
  exact .manyOne (he.steady u _ _ hu) (he.many.steady v r t hv)

theorem rule (name : RuleName) (he : e.Viable) : (Expr.rule name e).Viable := by
  refine ⟨he.completable.rule name, fun w r t h => ?_⟩
  rw [describes_rule] at h ⊢
  exact he.steady w r t h

end Viable

/-- The expression does not look ahead. -/
def IsPlain : Expr → Bool
  | .literal _ | .token _ => true
  | .seq e f | .either e f => e.IsPlain && f.IsPlain
  | .ahead _ => false
  | .optional e | .many e | .manyOne e | .rule _ e => e.IsPlain

theorem Viable.of_isPlain {e : Expr} (h : e.IsPlain = true) : e.Viable := by
  induction e with
  | literal word => exact .literal word
  | token t => exact .token t
  | seq e f ihe ihf =>
    obtain ⟨he, hf⟩ := Bool.and_eq_true_iff.mp h
    exact .seq (ihe he) (ihf hf)
  | either e f ihe ihf =>
    obtain ⟨he, hf⟩ := Bool.and_eq_true_iff.mp h
    exact .either (ihe he) (ihf hf)
  | ahead e => contradiction
  | optional e ih => exact .optional (ih h)
  | many e ih => exact .many (ih h)
  | manyOne e ih => exact .manyOne (ih h)
  | rule name e ih => exact .rule name (ih h)

end Expr

namespace Grammar

open WafRules.Expr

/-- What an operator without a name begins with is seen at the place where it is tried, so
nothing of it has been taken at any of its places. -/
theorem implicitOperator_completable : implicitOperator.expr.Completable := by
  apply Completable.rule
  intro v r h
  have nothing : v = [] := by
    cases h with
    | here => rfl
    | seqFirst h =>
      cases h with
      | here => rfl
      | ahead h =>
        cases h
        rfl
    | seqSecond hu h =>
      obtain ⟨rfl, -⟩ := describes_ahead.mp hu
      cases h with
      | here => rfl
      | rule h =>
        cases h
        rfl
  subst nothing
  have start (t : Text) : (Expr.token .implicitStart).Describes ['x'] t :=
    .token t ⟨'x', rfl, by decide⟩
  have argument (t : Text) : operatorArgument.expr.Describes ['x'] t :=
    .rule (.token t (.plain (by decide) (by decide) .nil))
  exact ⟨['x'], fun t => .seq (u := []) (.ahead (start t)) (argument t)⟩

theorem operatorBody_completable : operatorBody.expr.Completable := by
  have named : namedOperator.expr.Viable := .of_isPlain rfl
  exact (named.completable.either implicitOperator_completable).rule _

/-- The quote behind an operator may be what its body looks at. -/
theorem operatorBody_staysBefore_quote : operatorBody.expr.StaysBefore (word "\"") := by
  intro u r v t hu hv
  rw [describes_literal.mp hv]
  rcases describes_either.mp (describes_rule.mp hu) with h | h
  · have named : namedOperator.expr.Viable := .of_isPlain rfl
    exact .rule (.first (named.steady u r _ h))
  · obtain ⟨nothing, argument, rfl, hahead, hargument⟩ := describes_seq.mp (describes_rule.mp h)
    obtain ⟨rfl, x, y, seen, hx⟩ := describes_ahead.mp hahead
    obtain ⟨c, rfl, hc⟩ : ∃ c, x = [c] ∧ isImplicitStart c = true := describes_token.mp hx
    have word : operatorArgument.expr.Describes argument ('"' :: t) :=
      .rule (.token _ (describes_token.mp (describes_rule.mp hargument)))
    have ahead : (Expr.ahead (.token .implicitStart)).Describes [] (argument ++ '"' :: t) := by
      cases argument with
      | nil => exact .ahead (w := ['"']) (.token t ⟨'"', rfl, by decide⟩)
      | cons d argument =>
        cases seen
        exact .ahead (w := [c]) (.token _ ⟨c, rfl, hc⟩)
    exact .rule (.second (.rule (.seq ahead word)))

theorem operator_viable : operator.body.Viable := by
  have body := Viable.seq_of_staysBefore operatorBody_completable operatorBody_staysBefore_quote
    (.literal _)
  exact .seq (.literal _) (.seq (.of_isPlain rfl) body)

theorem secRule_viable : secRule.body.Viable := by
  have behind : (inOrder [.manyOne blank, actions, .many blank]).Viable := .of_isPlain rfl
  have rear : (inOrder [operator, .manyOne blank, actions, .many blank]).Viable :=
    .seq (.rule _ operator_viable) behind
  exact .seq (.of_isPlain rfl) (.seq (.literal _) (.seq (.of_isPlain rfl)
    (.seq (.of_isPlain rfl) (.seq (.of_isPlain rfl) rear))))

theorem production_viable (kind : NodeKind) : (production kind).body.Viable := by
  cases kind with
  | secRule => exact secRule_viable
  | operator => exact operator_viable
  | _ => exact .of_isPlain rfl

end Grammar

namespace Node

variable {kind : NodeKind} {s : Text}

/-- Where a part of the rule may begin, the text can go on to one that is accepted. -/
theorem exists_continuation_of_reaches {v r : Text}
    (h : (Grammar.production kind).expr.Reaches v r) :
    ∃ c node, Node.parse kind (v ++ c) = .ok node := by
  have viable : (Grammar.production kind).expr.Viable := .rule _ (Grammar.production_viable kind)
  obtain ⟨c, described⟩ := viable.completable v r h
  exact ⟨c, exists_parse_of_describes (Expr.describes_rule.mp (described []))⟩

/-- What the rule takes is accepted, whatever it leaves. -/
theorem exists_parse_of_run {start : Nat} {m : Match}
    (h : (Grammar.production kind).body.run start s = some m) :
    ∃ node, Node.parse kind m.taken = .ok node :=
  exists_parse_of_describes
    ((Grammar.production_viable kind).steady _ _ [] (Expr.describes_of_run h))

end Node

namespace SyntaxError

/-- The place of the error is that of the failure left on record, or the end of the match. -/
def IsFound (e : SyntaxError) (s : Text) : Prop :=
  match e.rejection with
  | .mismatch culprit =>
    (Grammar.production e.kind).expr.blame s none = some ⟨culprit, e.after⟩
  | .leftover =>
    ∃ nodes, (Grammar.production e.kind).expr.run 0 s = some ⟨nodes, e.before, e.after⟩

variable {kind : NodeKind} {s : Text}

/-- The error of a text that the rule does not match. -/
theorem ofFailure_found {f : Failure} (h : (Grammar.production kind).expr.blame s none = some f) :
    (ofFailure kind s f).IsFound s ∧
      ∃ c node, Node.parse kind ((ofFailure kind s f).before ++ c) = .ok node := by
  rcases Expr.blamedFor_of_blame h with fresh | ⟨v, whole, reached⟩
  · contradiction
  · have place : s.length - f.rest.length = v.length := by
      rw [← whole, List.length_append]
      omega
    have before : (ofFailure kind s f).before = v := by
      rw [ofFailure, place, ← whole, List.take_left]
    have after : (ofFailure kind s f).after = f.rest := by
      rw [ofFailure, place, ← whole, List.drop_left]
    refine ⟨?_, ?_⟩
    · change (Grammar.production kind).expr.blame s none = some ⟨f.culprit, _⟩
      rw [h, after]
    · rw [before]
      exact Node.exists_continuation_of_reaches reached

/-- The error of a text that the rule matches in part. -/
theorem leftover_found {m : Match} (h : (Grammar.production kind).body.run 0 s = some m) :
    IsFound ⟨kind, m.taken, m.rest, .leftover⟩ s ∧
      ∃ c node, Node.parse kind (m.taken ++ c) = .ok node := by
  constructor
  · refine ⟨(m.enclose 0 (Grammar.production kind).name).nodes, ?_⟩
    rw [Production.expr, Expr.run, h]
    cases hn : (Grammar.production kind).name <;> rfl
  · obtain ⟨node, accepted⟩ := Node.exists_parse_of_run h
    exact ⟨[], node, by rwa [List.append_nil]⟩

/-- What a message shows of a position in a text: the first characters behind it, and its line and
column, which come from the lines of what stands in front of it. -/
def placeAt (s : Text) (p : Nat) : String :=
  let above := Text.lines (s.take p)
  let shown := String.ofList ((s.drop p).take 20)
  let column := (above.getLastD []).length + 1
  s!"'{shown}' (line {above.length}, column {column})."

theorem place_eq_placeAt {e : SyntaxError} {p : Nat} (before : e.before = s.take p)
    (after : e.after = s.drop p) : e.place = placeAt s p := by
  simp only [place, placeAt, Text.excerpt, before, after, Text.endLine_eq, Text.endColumn_eq]

theorem exists_sentence_eq (e : SyntaxError) : ∃ what, e.sentence = what ++ e.place := by
  cases h : e.rejection with
  | mismatch culprit =>
    rw [sentence, h]
    exact ⟨_, rfl⟩
  | leftover =>
    rw [sentence, h]
    exact ⟨_, String.append_assoc.symm⟩

/-- A message ends with the place that it is about. -/
theorem exists_message_eq (e : SyntaxError) : ∃ what, e.message = what ++ e.place := by
  obtain ⟨what, h⟩ := e.exists_sentence_eq
  have front : e.message = s!"invalid syntax in {e.text.quoted}: " ++ e.sentence := rfl
  rw [front, h, ← String.append_assoc]
  exact ⟨_, rfl⟩

end SyntaxError

namespace Node

variable {kind : NodeKind} {s : Text}

/-- The place of an error is in the text, and what stands in front of it is the beginning of
a text that is accepted. It is the place that the message shows. -/
theorem parse_error_viable {e : SyntaxError} (h : Node.parse kind s = .error e) :
    ∃ p ≤ s.length, e.before = s.take p ∧ e.after = s.drop p ∧ e.kind = kind ∧
      (∃ what, e.message = what ++ SyntaxError.placeAt s p) ∧ e.IsFound s ∧
      ∃ c node, Node.parse kind (s.take p ++ c) = .ok node := by
  have text : e.before ++ e.after = s := text_of_parse_eq_error h
  have before : e.before = s.take e.before.length := by rw [← text, List.take_left]
  have after : e.after = s.drop e.before.length := by rw [← text, List.drop_left]
  have found : e.kind = kind ∧ e.IsFound s ∧
      ∃ c node, Node.parse kind (e.before ++ c) = .ok node := by
    simp only [Node.parse] at h
    split at h
    · rename_i hm
      cases h
      refine ⟨rfl, SyntaxError.ofFailure_found ?_⟩
      rw [Production.expr, Grammar.name_production, Expr.blame, hm]
    · rename_i m hm
      split at h
      · contradiction
      · cases h
        exact ⟨rfl, SyntaxError.leftover_found hm⟩
  obtain ⟨sameKind, isFound, viable⟩ := found
  refine ⟨e.before.length, ?_, before, after, sameKind, ?_, isFound, ?_⟩
  · rw [← text, List.length_append]
    exact Nat.le_add_right _ _
  · rw [← SyntaxError.place_eq_placeAt before after]
    exact e.exists_message_eq
  · rwa [← before]

/-- A bar cannot begin a key, so the key is missing in front of it. -/
theorem parse_error_viable_of_missing_key :
    ∃ e, Node.parse .secRule "SecRule ARGS:| \"@rx\" \"\"".toList = .error e ∧
      e.rejection = .mismatch (.rule (.node .selector)) ∧ e.before = "SecRule ARGS:".toList ∧
      ∃ c node, Node.parse .secRule ("SecRule ARGS:".toList ++ c) = .ok node := by
  have found : (match Node.parse .secRule "SecRule ARGS:| \"@rx\" \"\"".toList with
      | .ok _ => none
      | .error e => some (e.rejection, e.before)) =
        some (.mismatch (.rule (.node .selector)), "SecRule ARGS:".toList) := by decide +kernel
  cases h : Node.parse .secRule "SecRule ARGS:| \"@rx\" \"\"".toList with
  | ok node =>
    rw [h] at found
    contradiction
  | error e =>
    rw [h] at found
    obtain ⟨rejection, before⟩ := Prod.mk.inj (Option.some.inj found)
    obtain ⟨p, -, cut, -, -, -, -, viable⟩ := parse_error_viable h
    rw [← cut, before] at viable
    exact ⟨e, rfl, rejection, before, viable⟩

end Node

end WafRules
