import WafRules.Proofs.Diagnostics
import WafRules.Proofs.HandmadeTrees

/-!
# What the log of a block says

Checking a block leaves two records for each diagnostic, in the order of the diagnostics: why the
text could not be read, and that the directive is invalid. Nothing else gets into the log, so
nothing is there for a directive that can be read, and no failure is missing or there twice.
Reading the block leaves the first of these records, if there is one.

A failure leaves its record where it is noticed: in the grammar, or where a part of a rule is
read. That this comes down to one record for the error in the end is shown first.
-/

namespace WafRules

namespace Noting

variable {α β : Type}

/-- A step whose records are those of its error. -/
def Notes (x : Noting α) (outcome : Except ReadError α) : Prop :=
  x.run = Model.logging outcome

theorem Notes.step {ε : Type} {event : ε → Event} {wrap : ε → ReadError}
    (h : ∀ e, (wrap e).events = [event e]) (x : Except ε α) :
    Notes (step event wrap x) (x.mapError wrap) := by
  cases x with
  | ok a => rfl
  | error e =>
    change _ = Logged.mk (Except.error (wrap e)) (wrap e).events
    rw [h]
    rfl

/-- Steps that note no more than their errors do so together. -/
theorem Notes.bind {x : Noting α} {f : α → Noting β} {outcome : Except ReadError α}
    {next : α → Except ReadError β} (h : Notes x outcome) (later : ∀ a, Notes (f a) (next a)) :
    Notes (x >>= f) (outcome >>= next) := by
  rw [Notes] at h
  rw [Notes, ExceptT.run_bind, h]
  cases outcome with
  | ok a => exact later a
  | error e => exact congrArg (Logged.mk (Except.error e)) (List.append_nil e.events)

theorem Notes.silently {x : Except ReadError α} (h : ∀ e, x = .error e → e.events = []) :
    Notes (silently x) x := by
  cases x with
  | ok a => rfl
  | error e => exact congrArg (Logged.mk (Except.error e)) (h e rfl).symm

theorem notes_pure (a : α) : Notes (pure a) (pure a) := rfl

end Noting

theorem Cursor.notingPart_notes {α : Type} (part : Part) (kind : NodeKind)
    (read : Node → Except Fault α) (cursor : Cursor) :
    Noting.Notes (cursor.notingPart part kind read) (cursor.part part kind read) :=
  Noting.Notes.step (fun _ => rfl) _

theorem Rule.notingOfNode_notes (node : Node) :
    Noting.Notes (notingOfNode node) (ofNode node) := by
  have expect : ∀ e, (node.expect .secRule).mapError ReadError.fault = .error e →
      e.events = [] := by
    intro e h
    obtain ⟨fault, -, rfl⟩ := mapError_eq_error_iff.mp h
    rfl
  rw [notingOfNode, ofNode]
  refine (Noting.Notes.silently expect).bind fun _ => ?_
  refine (node.cursor.notingPart_notes ..).bind fun inputs => ?_
  refine (inputs.2.notingPart_notes ..).bind fun operator => ?_
  refine (operator.2.notingPart_notes ..).bind fun actions => ?_
  exact Noting.notes_pure _

/-- The records that are left on the way are those of the error in the end. -/
theorem Rule.run_notingParse (s : Text) : (notingParse s).run = Model.parseLogged s := by
  have read : Noting.Notes (notingParse s)
      ((Node.parse .secRule s).mapError ReadError.rejected >>= ofNode) :=
    (Noting.Notes.step (fun _ => rfl) _).bind notingOfNode_notes
  have same : (Node.parse .secRule s).mapError ReadError.rejected >>= ofNode =
      (Model.parse s : Except ReadError Rule) := by
    cases tree : Node.parse .secRule s with
    | error e => exact (Model.parse_eq_rejected (α := Rule) tree).symm
    | ok node => exact (Model.parse_eq_ofNode (α := Rule) tree).symm
  rw [Model.parseLogged, ← same]
  exact read

/-- A text that is not read as a rule is rejected by the grammar, or a part of it fails. -/
theorem Rule.rejected_or_part_of_parse {s : Text} {e : ReadError}
    (h : (Model.parse s : Except ReadError Rule) = .error e) :
    (∃ error, Node.parse .secRule s = .error error ∧ e = .rejected error) ∨
    ∃ node part fault, Node.parse .secRule s = .ok node ∧
      ofNode node = .error (.part part fault) ∧ e = .part part fault := by
  cases tree : Node.parse .secRule s with
  | error error =>
    have rejected := Model.parse_eq_rejected (α := Rule) tree
    exact .inl ⟨error, rfl, Except.error.inj (h.symm.trans rejected)⟩
  | ok node =>
    have read : ofNode node = .error e := (Model.parse_eq_ofNode (α := Rule) tree).symm.trans h
    have rule := Node.kind_of_parse_eq_ok tree
    refine .inr ⟨node, ?_⟩
    cases ofNode_eq_iff_readFrom.mp read with
    | unexpected other => exact absurd rule other
    | inputs _ _ => exact ⟨_, _, rfl, read, rfl⟩
    | operator _ _ _ => exact ⟨_, _, rfl, read, rfl⟩
    | actions _ _ _ _ => exact ⟨_, _, rfl, read, rfl⟩

/-- Why a text is not a rule: the grammar rejects it, or a part of its tree fails. -/
inductive LogRecord.ExplainsText (s : Text) : LogRecord → Prop
  | rejected {e : SyntaxError} : Node.parse .secRule s = .error e →
      ExplainsText s ⟨"secrules.grammar", .debug,
        s!"Grammar rejected sec_rule {s.quoted}: {e.sentence}"⟩
  | partFailed {node : Node} {part : Part} {e : Fault} : Node.parse .secRule s = .ok node →
      Rule.ofNode node = .error (.part part e) →
      ExplainsText s ⟨"secrules.rule", .debug,
        s!"SecRule {part.spelling} failed: {e.message}"⟩

def Diagnostic.record (d : Diagnostic) : LogRecord where
  logger := "secrules.ruleset"
  severity := .debug
  message := s!"Invalid directive on line {d.line}: {d.message}"

/-- The records are those of the diagnostics, two for each of them: why its text is not a rule,
and that the directive is invalid. -/
inductive LogRecord.Mirror : List Diagnostic → List LogRecord → Prop
  | nil : Mirror [] []
  | cons {d : Diagnostic} {r : LogRecord} {ds : List Diagnostic} {rs : List LogRecord} :
      r.ExplainsText d.text → Mirror ds rs → Mirror (d :: ds) (r :: d.record :: rs)

theorem Event.record_rejected {e : SyntaxError} (kind : e.kind = .secRule) :
    (Event.rejected e).record = ⟨"secrules.grammar", .debug,
      s!"Grammar rejected sec_rule {e.text.quoted}: {e.sentence}"⟩ := by
  have logger : rootLogger ++ ".grammar" = "secrules.grammar" := by decide +kernel
  have front : "Grammar rejected " ++ NodeKind.secRule.spelling ++ " " =
      "Grammar rejected sec_rule " := by decide +kernel
  change LogRecord.mk (rootLogger ++ ".grammar") .debug ("Grammar rejected " ++ e.kind.spelling ++
    " " ++ e.text.quoted ++ ": " ++ e.sentence) = _
  rw [logger, kind, front]
  rfl

theorem Event.record_partFailed (part : Part) (e : Fault) :
    (Event.partFailed part e).record =
      ⟨"secrules.rule", .debug, s!"SecRule {part.spelling} failed: {e.message}"⟩ := by
  have logger : rootLogger ++ ".rule" = "secrules.rule" := by decide +kernel
  rw [record, ← logger]
  rfl

theorem Event.record_invalidDirective (line : Nat) (text : Text) (e : ReadError) :
    (Event.invalidDirective line e).record = Diagnostic.record ⟨line, text, e.message⟩ := by
  have logger : rootLogger ++ ".ruleset" = "secrules.ruleset" := by decide +kernel
  rw [record, Diagnostic.record, ← logger]
  rfl

/-- The error of a text leaves one event, which explains it. -/
theorem exists_events_of_parse {s : Text} {e : ReadError}
    (h : (Model.parse s : Except ReadError Rule) = .error e) :
    ∃ event, e.events = [event] ∧ event.record.ExplainsText s := by
  rcases Rule.rejected_or_part_of_parse h with
    ⟨error, tree, rfl⟩ | ⟨node, part, fault, tree, read, rfl⟩
  · refine ⟨.rejected error, rfl, ?_⟩
    rw [Event.record_rejected (Node.kind_of_parse_eq_error tree), Node.text_of_parse_eq_error tree]
    exact .rejected tree
  · refine ⟨.partFailed part fault, rfl, ?_⟩
    rw [Event.record_partFailed]
    exact .partFailed tree read

namespace LogRecord.Mirror

theorem append {ds ds' : List Diagnostic} {rs rs' : List LogRecord} (h : Mirror ds rs)
    (h' : Mirror ds' rs') : Mirror (ds ++ ds') (rs ++ rs') := by
  induction h with
  | nil => exact h'
  | cons explains _ ih => exact .cons explains ih

theorem eq_nil {rs : List LogRecord} (h : Mirror [] rs) : rs = [] := by
  cases h
  rfl

theorem ne_nil {d : Diagnostic} {ds : List Diagnostic} {rs : List LogRecord}
    (h : Mirror (d :: ds) rs) : rs ≠ [] := by
  cases h
  exact List.cons_ne_nil _ _

end LogRecord.Mirror

namespace Directive

variable {d : Directive} {r : Rule} {e : ReadError}

theorem events_read_of_ok (h : Model.parse d.text = .ok r) : d.read.events = [] := by
  rw [read, Logged.events_bind, Model.parseLogged, h]
  rfl

theorem events_check_of_ok (h : Model.parse d.text = .ok r) : d.check.events = [] := by
  rw [check, Logged.events_bind, Model.parseLogged, h]
  rfl

theorem events_read_of_error (h : (Model.parse d.text : Except ReadError Rule) = .error e) :
    d.read.events = e.events := by
  rw [read, Logged.events_bind, Model.parseLogged, h, Logged.events_pure, List.append_nil]
  rfl

theorem events_check_of_error (h : (Model.parse d.text : Except ReadError Rule) = .error e) :
    d.check.events = e.events ++ [.invalidDirective d.line e] := by
  rw [check, Logged.events_bind, Model.parseLogged, h]
  rfl

/-- What checking one directive reports is what it logs. -/
theorem mirror_check (d : Directive) :
    LogRecord.Mirror d.check.value.toList (d.check.events.map Event.record) := by
  rw [value_check]
  cases h : (Model.parse d.text : Except ReadError Rule) with
  | ok r =>
    rw [diagnostic?_of_ok h, events_check_of_ok h]
    exact .nil
  | error e =>
    obtain ⟨event, events, explains⟩ := exists_events_of_parse h
    rw [diagnostic?_of_error h, events_check_of_error h, events, List.singleton_append,
      List.map_cons, List.map_cons, Event.record_invalidDirective d.line d.text]
    exact .cons explains .nil

theorem mirror_checkAll (ds : List Directive) :
    LogRecord.Mirror (checkAll ds).value ((checkAll ds).events.map Event.record) := by
  induction ds with
  | nil => exact .nil
  | cons d ds ih =>
    simp only [checkAll, Logged.value_bind, Logged.events_bind, Logged.value_pure,
      Logged.events_pure, List.append_nil, List.map_append]
    exact d.mirror_check.append ih

/-- Reading stops behind the first event that checking leaves: at a failure both leave its event,
and only checking goes on. -/
theorem events_readAll (ds : List Directive) :
    (readAll ds).events = (checkAll ds).events.take 1 := by
  induction ds with
  | nil => rfl
  | cons d ds ih =>
    rw [checkAll, Logged.events_bind, Logged.events_bind, Logged.events_pure, List.append_nil,
      readAll, Logged.events_bind]
    cases h : (Model.parse d.text : Except ReadError Rule) with
    | ok r =>
      rw [events_read_of_ok h, events_check_of_ok h, value_read_eq_ok_iff.mpr h]
      simp only [Logged.events_bind, Logged.events_pure, List.append_nil, List.nil_append, ih]
    | error e =>
      obtain ⟨event, events, -⟩ := exists_events_of_parse h
      have failed : d.read.value = .error ⟨d, e⟩ := value_read_eq_error_iff.mpr ⟨rfl, h⟩
      rw [events_read_of_error h, events_check_of_error h, events, failed]
      rfl

end Directive

/-- The log of a block that is gone through in order. Checking it leaves two records for each
diagnostic and nothing for a directive that is read; reading it leaves nothing if it can be read,
and otherwise the first event that checking leaves. Each record is written where something
fails. -/
theorem log_mirrors_block (s : Text) :
    LogRecord.Mirror (checkBlock s).value ((checkBlock s).events.map Event.record) ∧
    (∀ d : Directive, (∃ r : Rule, Model.parse d.text = .ok r) → d.check.events = []) ∧
    (∀ rules, (parseBlock s).value = .ok rules → (parseBlock s).events = []) ∧
    (∀ e, (parseBlock s).value = .error e → ∃ first others,
      (checkBlock s).events = first :: others ∧ (parseBlock s).events = [first]) ∧
    ∀ t, (Rule.notingParse t).run = Model.parseLogged t := by
  have mirror : LogRecord.Mirror (checkBlock s).value ((checkBlock s).events.map Event.record) :=
    Directive.mirror_checkAll (directives s)
  have stops : (parseBlock s).events = (checkBlock s).events.take 1 :=
    Directive.events_readAll (directives s)
  refine ⟨mirror, ?_, ?_, ?_, Rule.run_notingParse⟩
  · rintro d ⟨r, h⟩
    exact Directive.events_check_of_ok h
  · intro rules h
    rw [checkBlock_eq_nil_iff.mpr ⟨rules, h⟩] at mirror
    rw [stops, List.map_eq_nil_iff.mp mirror.eq_nil, List.take_nil]
  · intro e h
    obtain ⟨others, reported⟩ := exists_checkBlock_eq_cons h
    rw [reported] at mirror
    obtain ⟨first, behind, events⟩ := List.exists_cons_of_ne_nil fun none =>
      mirror.ne_nil (List.map_eq_nil_iff.mpr none)
    exact ⟨first, behind, events, by rw [stops, events]; rfl⟩

/-- A directive that can be read, and one with a faulty part. -/
example : (checkBlock "SecRule TX \"a\" \"\"\nSecRule !TX \"a\" \"\"".toList).events.map Event.record =
    [⟨"secrules.rule", .debug, "SecRule inputs failed: invalid input selector !TX"⟩,
      ⟨"secrules.ruleset", .debug,
        "Invalid directive on line 2: invalid inputs: invalid input selector !TX"⟩] := by
  decide +kernel

end WafRules
