import WafRules.Block
import WafRules.Proofs.Directives

/-!
# Reading and checking agree

Reading a block and checking it are two functions, and with several workers each of them
goes another way. All four ways come down to the outcomes of the directives one by one:
reading hands out the rules, or the first failure as an error, and checking hands out all
failures in order. So a block can be read exactly if checking finds nothing, and the error
is what checking reports first.
-/

namespace WafRules

/-- What checking reports where reading ends in this error. -/
def DirectiveError.diagnostic (e : DirectiveError) : Diagnostic where
  line := e.directive.line
  text := e.directive.text
  message := e.error.message

namespace Directive

/-- The diagnostic of a directive, if its text is not read as a rule. -/
def diagnostic? (d : Directive) : Option Diagnostic :=
  match (Model.parse d.text : Except ReadError Rule) with
  | .ok _ => none
  | .error e => some ⟨d.line, d.text, e.message⟩

theorem diagnostic?_of_ok {d : Directive} {r : Rule} (h : Model.parse d.text = .ok r) :
    d.diagnostic? = none := by
  rw [diagnostic?, h]

theorem diagnostic?_of_error {d : Directive} {e : ReadError}
    (h : (Model.parse d.text : Except ReadError Rule) = .error e) :
    d.diagnostic? = some ⟨d.line, d.text, e.message⟩ := by
  rw [diagnostic?, h]

theorem diagnostic?_eq_none_iff {d : Directive} :
    d.diagnostic? = none ↔ ∃ r : Rule, Model.parse d.text = .ok r := by
  cases h : (Model.parse d.text : Except ReadError Rule) with
  | ok r => simp [diagnostic?_of_ok h]
  | error e => simp [diagnostic?_of_error h]

theorem value_check (d : Directive) : d.check.value = d.diagnostic? := by
  rw [check, Logged.value_bind, Model.parseLogged, value_logging]
  cases h : (Model.parse d.text : Except ReadError Rule) with
  | ok r => exact (diagnostic?_of_ok h).symm
  | error e => exact (diagnostic?_of_error h).symm

/-- Checking a row of directives checks each of them. -/
theorem value_checkAll (ds : List Directive) :
    (checkAll ds).value = ds.filterMap diagnostic? := by
  induction ds with
  | nil => rfl
  | cons d ds ih =>
    rw [checkAll, Logged.value_bind, Logged.value_bind, Logged.value_pure, ih, value_check]
    cases h : d.diagnostic? <;> simp [h]

theorem value_read_eq_ok_iff {d : Directive} {r : Rule} :
    d.read.value = .ok r ↔ Model.parse d.text = .ok r := by
  rw [value_read, mapError_eq_ok_iff]

theorem value_read_eq_error_iff {d : Directive} {e : DirectiveError} :
    d.read.value = .error e ↔
      e.directive = d ∧ (Model.parse d.text : Except ReadError Rule) = .error e.error := by
  rw [value_read, mapError_eq_error_iff]
  constructor
  · rintro ⟨reason, failed, rfl⟩
    exact ⟨rfl, failed⟩
  · rintro ⟨rfl, failed⟩
    exact ⟨e.error, failed, rfl⟩

end Directive

/-- A block can be read exactly if each of its directives can. -/
theorem exists_parseBlock_iff {s : Text} :
    (∃ rules, (parseBlock s).value = .ok rules) ↔
      ∀ d ∈ directives s, ∃ r : Rule, Model.parse d.text = .ok r := by
  simp only [parseBlock, Directive.value_readAll, exists_mapM_eq_ok_iff_forall,
    Directive.value_read_eq_ok_iff]

/-- The error of a block is that of its first directive that cannot be read. -/
theorem parseBlock_eq_error_iff {s : Text} {e : DirectiveError} :
    (parseBlock s).value = .error e ↔
      ∃ before after, directives s = before ++ e.directive :: after ∧
        (Model.parse e.directive.text : Except ReadError Rule) = .error e.error ∧
        ∀ d ∈ before, ∃ r : Rule, Model.parse d.text = .ok r := by
  simp only [parseBlock, Directive.value_readAll, mapM_eq_error_iff_exists,
    Directive.value_read_eq_error_iff, Directive.value_read_eq_ok_iff]
  constructor
  · rintro ⟨before, d, after, split, ⟨rfl, failed⟩, fine⟩
    exact ⟨before, after, split, failed, fine⟩
  · rintro ⟨before, after, split, failed, fine⟩
    exact ⟨before, e.directive, after, split, ⟨rfl, failed⟩, fine⟩

theorem value_checkBlock (s : Text) :
    (checkBlock s).value = (directives s).filterMap Directive.diagnostic? :=
  Directive.value_checkAll (directives s)

/-- Checking finds nothing exactly if the block can be read. -/
theorem checkBlock_eq_nil_iff {s : Text} :
    (checkBlock s).value = [] ↔ ∃ rules, (parseBlock s).value = .ok rules := by
  simp only [value_checkBlock, List.filterMap_eq_nil_iff, Directive.diagnostic?_eq_none_iff,
    exists_parseBlock_iff]

/-- The error in which reading ends is what checking reports first. -/
theorem exists_checkBlock_eq_cons {s : Text} {e : DirectiveError}
    (h : (parseBlock s).value = .error e) :
    ∃ others, (checkBlock s).value = e.diagnostic :: others := by
  obtain ⟨before, after, split, failed, fine⟩ := parseBlock_eq_error_iff.mp h
  have silent : before.filterMap Directive.diagnostic? = [] :=
    List.filterMap_eq_nil_iff.mpr fun d hd => Directive.diagnostic?_eq_none_iff.mpr (fine d hd)
  have reported : e.directive.diagnostic? = some e.diagnostic :=
    Directive.diagnostic?_of_error failed
  refine ⟨after.filterMap Directive.diagnostic?, ?_⟩
  rw [value_checkBlock, split, List.filterMap_append, silent, List.nil_append,
    List.filterMap_cons_some reported]

/-- Workers change no result. -/
theorem parseBlockBy_eq (workers : Int) (s : Text) :
    parseBlockBy workers s = (parseBlock s).value := by
  rw [parseBlockBy]
  split
  · rfl
  · rw [parseBlock, Directive.value_readAll, List.mapM_map]
    rfl

theorem checkBlockBy_eq (workers : Int) (s : Text) :
    checkBlockBy workers s = (checkBlock s).value := by
  rw [checkBlockBy]
  split
  · rfl
  · rw [checkBlock, Directive.value_checkAll, List.filterMap_map]
    simp [Directive.value_check]

/-- Reading and checking agree, with any numbers of workers. Checking reports the directives that
cannot be read, in order and each with its reason; a block is read, directive by directive,
exactly if nothing is reported; and otherwise the error is what is reported first. -/
theorem parseBlockBy_checkBlockBy_agree (m n : Int) (s : Text) :
    checkBlockBy n s = (directives s).filterMap Directive.diagnostic? ∧
    ((∃ rules, parseBlockBy m s = .ok rules) ↔ checkBlockBy n s = []) ∧
    (∀ rules, parseBlockBy m s = .ok rules →
      (directives s).map (fun d => Model.parse d.text) = rules.map .ok) ∧
    ∀ e, parseBlockBy m s = .error e →
      (Model.parse e.directive.text : Except ReadError Rule) = .error e.error ∧
      ∃ others, checkBlockBy n s = e.diagnostic :: others := by
  rw [parseBlockBy_eq, checkBlockBy_eq]
  refine ⟨value_checkBlock s, checkBlock_eq_nil_iff.symm, fun rules => parseBlock_eq_ok_iff.mp,
    fun e failed => ?_⟩
  obtain ⟨_, _, _, reason, _⟩ := parseBlock_eq_error_iff.mp failed
  exact ⟨reason, exists_checkBlock_eq_cons failed⟩

end WafRules
