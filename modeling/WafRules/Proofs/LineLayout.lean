import WafRules.Proofs.Directives

/-!
# The layout of lines

A block is read by its trimmed lines and by nothing else. So its layout may be changed: blanks
may be put in front of a line, carriage returns behind it, and blanks behind it too if it does
not end in a carriage return. No directive changes by that, no number of a line and no result of
reading or checking, whatever lines are edited, in whatever order and how often.

The carriage returns are trimmed before the blanks. So a blank behind a carriage return
protects it, and the last condition is needed.
-/

namespace WafRules

theorem Form.Blanks.not_mem (run : Form.Blanks) {c : Char} (h : isBlank c = false) :
    c ∉ run.text := fun mem => by
  rw [run.blank c mem] at h
  contradiction

theorem Form.Blanks.getLast?_ne (run : Form.Blanks) : run.text.getLast? ≠ some '\r' :=
  fun last => run.not_mem (by decide) (List.mem_of_getLast? last)

theorem Text.getLast?_append_ne {s t : Text} {c : Char} (hs : s.getLast? ≠ some c)
    (ht : t.getLast? ≠ some c) : (s ++ t).getLast? ≠ some c := by
  intro last
  rw [List.getLast?_append, Option.or_eq_some_iff] at last
  rcases last with last | ⟨-, last⟩
  · exact ht last
  · exact hs last

namespace Directive

namespace TrimsTo

variable {line kept : Text}

theorem indent (h : TrimsTo line kept) (run : Form.Blanks) : TrimsTo (run.text ++ line) kept := by
  obtain ⟨⟨before, behind, count, rfl, blanks, blanks', last⟩, starts, ends⟩ := h
  refine ⟨⟨run.text ++ before, behind, count, ?_, ?_, blanks', ?_⟩, starts, ends⟩
  · simp only [List.append_assoc]
  · exact List.forall_mem_append.mpr ⟨run.blank, blanks⟩
  · have joined := Text.getLast?_append_ne run.getLast?_ne last
    rwa [← List.append_assoc, ← List.append_assoc] at joined

theorem addReturns (h : TrimsTo line kept) (more : Nat) :
    TrimsTo (line ++ List.replicate more '\r') kept := by
  obtain ⟨⟨before, behind, count, rfl, blanks, blanks', last⟩, starts, ends⟩ := h
  refine ⟨⟨before, behind, count + more, ?_, blanks, blanks', last⟩, starts, ends⟩
  rw [List.append_assoc, List.replicate_append_replicate]

/-- Without a carriage return at the end there is nothing between the blanks. -/
theorem addBlanks (h : TrimsTo line kept) (run : Form.Blanks) (open_ : line.getLast? ≠ some '\r') :
    TrimsTo (line ++ run.text) kept := by
  obtain ⟨⟨before, behind, count, rfl, blanks, blanks', last⟩, starts, ends⟩ := h
  cases count with
  | succ count =>
    rw [List.replicate_succ', ← List.append_assoc, List.getLast?_concat] at open_
    exact absurd rfl open_
  | zero =>
    refine ⟨⟨before, behind ++ run.text, 0, ?_, blanks, ?_, ?_⟩, starts, ends⟩
    · simp only [List.append_assoc, List.replicate_zero, List.append_nil]
    · exact List.forall_mem_append.mpr ⟨blanks', run.blank⟩
    · have joined := Text.getLast?_append_ne last run.getLast?_ne
      rwa [List.append_assoc] at joined

end TrimsTo

variable {line line' : Text}

/-- A line counts by what is left of it when it is trimmed. -/
theorem step_congr (n : Nat) (pending : Option Directive) (h : trimLine line = trimLine line') :
    step n pending line = step n pending line' := by
  simp only [step, h]

theorem ofLines_congr (n : Nat) (pending : Option Directive) {ls ls' : List Text}
    (h : ls.map trimLine = ls'.map trimLine) : ofLines n pending ls = ofLines n pending ls' := by
  induction ls generalizing n pending ls' with
  | nil =>
    cases ls' with
    | nil => rfl
    | cons line' ls' => cases h
  | cons line ls ih =>
    cases ls' with
    | nil => cases h
    | cons line' ls' =>
      obtain ⟨head, tail⟩ := List.cons.inj h
      rw [ofLines_cons, ofLines_cons, step_congr n pending head, ih _ _ tail]

end Directive

/-- The trimmed lines decide what the directives are. -/
theorem directives_congr {s t : Text}
    (h : (Text.lines s).map Directive.trimLine = (Text.lines t).map Directive.trimLine) :
    directives s = directives t :=
  Directive.ofLines_congr 1 none h

/-- The directives decide what reading and checking find. -/
theorem blocks_congr {s t : Text} (h : directives s = directives t) (workers : Int) :
    parseBlockBy workers s = parseBlockBy workers t ∧
      checkBlockBy workers s = checkBlockBy workers t := by
  rw [parseBlockBy, parseBlockBy, checkBlockBy, checkBlockBy, parseBlock, parseBlock, checkBlock,
    checkBlock, h]
  exact ⟨rfl, rfl⟩

/-- A change of the layout of a line. -/
inductive LineEdit where
  | indent (run : Form.Blanks)
  | addReturns (count : Nat)
  | addBlanks (run : Form.Blanks)

namespace LineEdit

/-- Blanks are not put behind a carriage return. -/
def apply : LineEdit → Text → Text
  | indent run, line => run.text ++ line
  | addReturns count, line => line ++ List.replicate count '\r'
  | addBlanks run, line => if line.getLast? = some '\r' then line else line ++ run.text

theorem trimLine_apply (edit : LineEdit) (line : Text) :
    Directive.trimLine (edit.apply line) = Directive.trimLine line := by
  have trimmed := Directive.trimsTo_trimLine line
  cases edit with
  | indent run => exact (trimmed.indent run).trimLine_eq
  | addReturns count => exact (trimmed.addReturns count).trimLine_eq
  | addBlanks run =>
    rw [apply]
    split
    · rfl
    · rename_i last
      exact (trimmed.addBlanks run last).trimLine_eq

theorem not_mem_apply (edit : LineEdit) {line : Text} (h : '\n' ∉ line) :
    '\n' ∉ edit.apply line := by
  have feed (run : Form.Blanks) : '\n' ∉ run.text := run.not_mem (by decide)
  cases edit with
  | indent run => simp [apply, h, feed run]
  | addReturns count => simp [apply, h, List.mem_replicate]
  | addBlanks run =>
    rw [apply]
    split
    · exact h
    · simp [h, feed run]

end LineEdit

/-- A line, by the number of lines above it, and a change of its layout. -/
structure LayoutEdit where
  above : Nat
  change : LineEdit

namespace LayoutEdit

/-- Where there is no such line nothing changes. -/
def apply (edit : LayoutEdit) (s : Text) : Text :=
  ['\n'].intercalate ((Text.lines s).modify edit.above edit.change.apply)

theorem lines_apply (edit : LayoutEdit) (s : Text) :
    Text.lines (edit.apply s) = (Text.lines s).modify edit.above edit.change.apply := by
  refine List.splitOn_intercalate '\n' ?_ ?_
  · intro line hline
    obtain ⟨i, hi, rfl⟩ := List.getElem_of_mem hline
    have inside : i < (Text.lines s).length := by simpa using hi
    have old : '\n' ∉ (Text.lines s)[i] := Text.not_mem_of_mem_lines (List.getElem_mem inside)
    rw [List.getElem_modify]
    split
    · exact edit.change.not_mem_apply old
    · exact old
  · intro none
    have some := List.length_modify edit.change.apply (Text.lines s) edit.above
    rw [none, Text.length_lines] at some
    cases some

theorem trimmed_apply (edit : LayoutEdit) (s : Text) :
    (Text.lines (edit.apply s)).map Directive.trimLine =
      (Text.lines s).map Directive.trimLine := by
  rw [lines_apply]
  refine List.ext_getElem (by simp) fun i _ _ => ?_
  rw [List.getElem_map, List.getElem_map, List.getElem_modify]
  split
  · exact edit.change.trimLine_apply _
  · rfl

end LayoutEdit

/-- The text after these edits, one after the other. -/
def Text.relaid (edits : List LayoutEdit) (s : Text) : Text :=
  edits.foldl (fun s edit => edit.apply s) s

/-- The text with a carriage return in front of every line feed. -/
def Text.withReturns (s : Text) : Text :=
  s.flatMap fun c => if c = '\n' then ['\r', '\n'] else [c]

namespace Text

theorem trimmed_relaid (edits : List LayoutEdit) (s : Text) :
    (lines (relaid edits s)).map Directive.trimLine = (lines s).map Directive.trimLine := by
  induction edits generalizing s with
  | nil => rfl
  | cons edit edits ih => exact (ih _).trans (edit.trimmed_apply s)

/-- Every line but the last has a carriage return more. A character that ends no line is put in
front of the first one, which may be the last one too. -/
theorem lines_withReturns (s : Text) :
    ∃ front last, lines s = front ++ [last] ∧
      lines s.withReturns = front.map (· ++ ['\r']) ++ [last] := by
  induction s with
  | nil => exact ⟨[], [], rfl, rfl⟩
  | cons c s ih =>
    obtain ⟨front, last, plain, returned⟩ := ih
    by_cases hc : c = '\n'
    · subst hc
      have split : lines (withReturns ('\n' :: s)) = ['\r'] :: lines (withReturns s) :=
        lines_append ['\r'] (withReturns s)
      refine ⟨[] :: front, last, ?_, by rw [split, returned]; rfl⟩
      exact (lines_append [] s).trans (congrArg ([] :: ·) plain)
    · have step : withReturns (c :: s) = c :: withReturns s := by
        simp [withReturns, hc]
      rw [lines] at plain returned
      rw [step, lines, lines, List.splitOn_cons_eq_if_modifyHead,
        List.splitOn_cons_eq_if_modifyHead, plain, returned]
      simp only [beq_iff_eq, hc, if_false]
      cases front with
      | nil => exact ⟨[], c :: last, rfl, rfl⟩
      | cons line front => exact ⟨(c :: line) :: front, last, rfl, rfl⟩

/-- The edits of a row of lines, one after the other. The lines that are done grow with each
edit, so that their number stays the one above the row. -/
theorem lines_relaid_row (change : LineEdit) {s : Text} {done row rest : List Text}
    (h : lines s = done ++ row ++ rest) :
    lines (relaid ((List.range' done.length row.length).map (⟨·, change⟩)) s) =
      done ++ row.map change.apply ++ rest := by
  induction row generalizing s done with
  | nil => exact h
  | cons line row ih =>
    let edit : LayoutEdit := ⟨done.length, change⟩
    have first : lines (edit.apply s) = done ++ [change.apply line] ++ row ++ rest := by
      rw [edit.lines_apply, h]
      have inside := List.modifyTailIdx_add (List.modifyHead change.apply) 0 done
        (line :: row ++ rest)
      simpa [List.modify] using inside
    have later := ih first
    rw [List.length_append, List.length_singleton] at later
    simpa [relaid, List.range'_succ] using later

/-- Carriage returns in front of all line feeds are a matter of layout. -/
theorem exists_relaid_eq_withReturns (s : Text) : ∃ edits, relaid edits s = s.withReturns := by
  obtain ⟨front, last, plain, returned⟩ := s.lines_withReturns
  refine ⟨(List.range' 0 front.length).map (⟨·, .addReturns 1⟩), lines_injective ?_⟩
  rw [returned]
  exact @lines_relaid_row (.addReturns 1) s [] front [last] plain

end Text

/-- Edits of the layout, on any lines and as many as one likes, leave a block as it is: its
directives with the numbers of their lines, its rules or the error in it, and its diagnostics.
Writing all line ends with a carriage return is such an edit. -/
theorem blocks_relaid (s : Text) :
    (∀ edits, directives (s.relaid edits) = directives s ∧
      ∀ workers, parseBlockBy workers (s.relaid edits) = parseBlockBy workers s ∧
        checkBlockBy workers (s.relaid edits) = checkBlockBy workers s) ∧
    ∃ edits, s.relaid edits = s.withReturns := by
  refine ⟨fun edits => ?_, s.exists_relaid_eq_withReturns⟩
  have same : directives (s.relaid edits) = directives s :=
    directives_congr (s.trimmed_relaid edits)
  exact ⟨same, blocks_congr same⟩

/-- A blank behind a carriage return is not a matter of layout. -/
example : directives ['a', '\r'] = [⟨1, ['a']⟩] ∧
    directives ['a', '\r', ' '] = [⟨1, ['a', '\r']⟩] := by decide

end WafRules
