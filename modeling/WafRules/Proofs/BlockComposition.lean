import WafRules.Proofs.Diagnostics

/-!
# Blocks behind each other

Two texts with a line feed between them are read as the one and then the other, as soon as
no directive is still going on where the first text ends. This holds of the directives, of
what checking reports, and of reading: the second text only counts where the first can be
read. All that changes for the second text is the number of its first line.
-/

namespace WafRules

/-- The same diagnostic, counted from a later line. -/
def Diagnostic.shift (k : Nat) (d : Diagnostic) : Diagnostic := { d with line := d.line + k }

/-- The same error, counted from a later line. -/
def DirectiveError.shift (k : Nat) (e : DirectiveError) : DirectiveError :=
  { e with directive := e.directive.shift k }

theorem DirectiveError.message_shift (k : Nat) (e : DirectiveError) :
    (e.shift k).message = s!"line {e.directive.line + k}: {e.error.message}" := rfl

namespace Directive

/-- Where a directive is still going on, a line behind it is part of it and starts no other. -/
theorem length_ofLines_concat (n : Nat) (pending : Option Directive) (ls : List Text)
    (h : goesOn pending.isSome ls = true) :
    (ofLines n pending (ls ++ [['x']])).length = (ofLines n pending ls).length := by
  induction ls generalizing n pending with
  | nil =>
    cases pending with
    | none => cases h
    | some d => rfl
  | cons line ls ih =>
    rw [goesOn_cons n] at h
    rw [List.cons_append, ofLines_cons, ofLines_cons, List.length_append, List.length_append,
      ih _ _ h]

/-- What a directive is read as does not depend on its line. -/
theorem read_shift (k : Nat) (d : Directive) :
    (d.shift k).read.value = d.read.value.mapError (DirectiveError.shift k) := by
  rw [value_read, value_read, shift]
  cases (Model.parse d.text : Except ReadError Rule) <;> rfl

theorem diagnostic?_shift (k : Nat) (d : Directive) :
    (d.shift k).diagnostic? = d.diagnostic?.map (Diagnostic.shift k) := by
  rw [diagnostic?, diagnostic?, shift]
  cases (Model.parse d.text : Except ReadError Rule) <;> rfl

theorem value_readAll_append (ds es : List Directive) :
    (readAll (ds ++ es)).value = do
      let rules ← (readAll ds).value
      let others ← (readAll es).value
      return rules ++ others := by
  simp only [value_readAll, List.mapM_append]

theorem value_readAll_shift (k : Nat) (ds : List Directive) :
    (readAll (ds.map (shift k))).value =
      (readAll ds).value.mapError (DirectiveError.shift k) := by
  rw [value_readAll, value_readAll, List.mapM_map, ← mapM_mapError]
  exact congrArg (List.mapM · ds) (funext fun d => read_shift k d)

theorem value_checkAll_shift (k : Nat) (ds : List Directive) :
    (checkAll (ds.map (shift k))).value = (checkAll ds).value.map (Diagnostic.shift k) := by
  rw [value_checkAll, value_checkAll, List.filterMap_map, List.map_filterMap]
  exact congrArg (List.filterMap · ds) (funext fun d => diagnostic?_shift k d)

end Directive

/-- Nothing less will do: if a directive is still going on where the first text ends, there are
texts behind it that do not keep their directives. -/
theorem directives_append_iff (s : Text) :
    (∀ t, directives (s ++ '\n' :: t) =
        directives s ++ (directives t).map (Directive.shift (Text.lines s).length)) ↔
      Directive.goesOn false (Text.lines s) = false := by
  constructor
  · intro all
    cases open_ : Directive.goesOn false (Text.lines s) with
    | false => rfl
    | true =>
      have joined := Directive.length_ofLines_concat 1 none (Text.lines s) open_
      have apart := congrArg List.length (all ['x'])
      have single : Text.lines ['x'] = [['x']] := Text.lines_of_not_mem (by decide)
      have one : (directives ['x']).length = 1 := by decide +kernel
      rw [List.length_append, List.length_map, one, directives, Text.lines_append, single, joined,
        directives] at apart
      omega
  · intro complete t
    exact directives_append s t complete

/-- A text that ends with no directive going on, and a text behind it: the directives, the
diagnostics and the rules are those of the first and those of the second, whose lines are
counted on from the lines of the first. An error in the first text is the only one. -/
theorem blocks_append (workers : Int) (s t : Text)
    (complete : Directive.goesOn false (Text.lines s) = false) :
    let k := s.count '\n' + 1
    directives (s ++ '\n' :: t) = directives s ++ (directives t).map (Directive.shift k) ∧
    checkBlockBy workers (s ++ '\n' :: t) =
      checkBlockBy workers s ++ (checkBlockBy workers t).map (Diagnostic.shift k) ∧
    parseBlockBy workers (s ++ '\n' :: t) = (do
      let rules ← parseBlockBy workers s
      let others ← (parseBlockBy workers t).mapError (DirectiveError.shift k)
      return rules ++ others) ∧
    ∀ e : DirectiveError,
      (e.shift k).message = s!"line {e.directive.line + k}: {e.error.message}" := by
  intro k
  have cut : directives (s ++ '\n' :: t) =
      directives s ++ (directives t).map (Directive.shift k) := by
    rw [directives_append s t complete, Text.length_lines]
  refine ⟨cut, ?_, ?_, DirectiveError.message_shift k⟩
  · simp only [checkBlockBy_eq, checkBlock, cut, ← Directive.value_checkAll_shift]
    simp only [Directive.value_checkAll, List.filterMap_append]
  · simp only [parseBlockBy_eq, parseBlock, cut, Directive.value_readAll_append,
      Directive.value_readAll_shift]

/-- Behind three lines, the last of them a comment that does not go on, the second text has its
continued directive on line four. -/
theorem blocks_append_of_comment :
    let s := "SecRule ARGS \\\n  \"@rx a\" \"id:1\"\n# done".toList
    let t := "SecRule NOPE \\\n \"x\" \"\" \\".toList
    Directive.goesOn false (Text.lines s) = false ∧
    directives (s ++ '\n' :: t) =
      [⟨1, "SecRule ARGS \"@rx a\" \"id:1\"".toList⟩, ⟨4, "SecRule NOPE \"x\" \"\" ".toList⟩] ∧
    checkBlockBy 1 (s ++ '\n' :: t) =
      [⟨4, "SecRule NOPE \"x\" \"\" ".toList, "invalid inputs: unknown input NOPE"⟩] := by
  intro s t
  have complete : Directive.goesOn false (Text.lines s) = false := by decide +kernel
  obtain ⟨cut, checked, -, -⟩ := blocks_append 1 s t complete
  refine ⟨complete, ?_, ?_⟩
  · rw [cut]
    decide +kernel
  · rw [checked]
    decide +kernel

end WafRules
