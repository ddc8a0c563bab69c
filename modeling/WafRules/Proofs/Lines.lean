import Mathlib.Data.List.DropRight
import WafRules.Block

/-!
# Lines

A text is cut into lines at its line feeds and nowhere else, and a line is trimmed before
anything else is decided about it. What the cut and the trimming find is fixed by what it
looks like. The lines are the one row of texts without line feeds that makes up the text again
when line feeds are put between them. What is left of a line stands between its blanks, in
front of the carriage returns at its end, and neither begins nor ends with a blank.

The line and the column of a place are those of the end of what stands in front of it.
-/

namespace WafRules

namespace Text

variable {s : Text} {p : Char → Bool}

/-- No line has a line feed in it. -/
theorem not_mem_of_mem_lines {line : Text} (h : line ∈ lines s) : '\n' ∉ line := by
  induction s generalizing line with
  | nil =>
    rw [lines, List.splitOn_nil, List.mem_singleton] at h
    simp [h]
  | cons c s ih =>
    obtain ⟨first, more, hs⟩ := List.exists_cons_of_ne_nil (List.splitOn_ne_nil '\n' s)
    have tail {t : Text} (ht : t ∈ first :: more) : '\n' ∉ t := ih (by rwa [lines, hs])
    rw [lines, List.splitOn_cons_eq_if_modifyHead, hs] at h
    split at h
    · rcases List.mem_cons.mp h with rfl | h
      · exact List.not_mem_nil
      · exact tail h
    · rename_i hc
      rcases List.mem_cons.mp h with rfl | h
      · have head := tail List.mem_cons_self
        intro mem
        rcases List.mem_cons.mp mem with rfl | mem
        · exact hc rfl
        · exact head mem
      · exact tail (List.mem_cons_of_mem first h)

theorem length_lines (s : Text) : (lines s).length = s.count '\n' + 1 := by
  induction s with
  | nil => rfl
  | cons c s ih =>
    rw [lines] at ih
    rw [lines, List.splitOn_cons_eq_if_modifyHead, List.count_cons]
    split
    · rw [List.length_cons, ih]
    · rw [List.length_modifyHead, ih, Nat.add_zero]

/-- The texts are the lines of a text: with line feeds between them they make it up again, they
have no line feed in them, and there is one more of them than there are line feeds. -/
structure CutInto (s : Text) (ls : List Text) : Prop where
  joined : ['\n'].intercalate ls = s
  separate : ∀ line ∈ ls, '\n' ∉ line
  count : ls.length = s.count '\n' + 1

theorem cutInto_lines (s : Text) : CutInto s (lines s) where
  joined := List.intercalate_splitOn '\n'
  separate _ := not_mem_of_mem_lines
  count := length_lines s

/-- A text is cut into lines in one way. -/
theorem cutInto_iff {ls : List Text} : CutInto s ls ↔ lines s = ls := by
  constructor
  · rintro ⟨rfl, separate, count⟩
    refine List.splitOn_intercalate '\n' separate ?_
    rintro rfl
    cases count
  · rintro rfl
    exact cutInto_lines s

theorem lines_injective {t : Text} (h : lines s = lines t) : s = t := by
  rw [← (cutInto_lines s).joined, h, (cutInto_lines t).joined]

theorem lines_of_not_mem (h : '\n' ∉ s) : lines s = [s] :=
  List.splitOn_eq_singleton h

theorem eq_false_of_getLast?_rdropWhile {c : Char} (h : (s.rdropWhile p).getLast? = some c) :
    p c = false := by
  obtain ⟨nonempty, rfl⟩ := List.mem_getLast?_eq_getLast h
  exact Bool.eq_false_iff.mpr (List.rdropWhile_last_not p s nonempty)

/-- The last line is what stands behind the last line feed. -/
theorem exists_lines_eq_concat (s : Text) :
    ∃ front, lines s = front ++ [s.rtakeWhile (· != '\n')] := by
  have single : lines (s.rtakeWhile (· != '\n')) = [s.rtakeWhile (· != '\n')] := by
    refine lines_of_not_mem fun feed => ?_
    have other := List.mem_rtakeWhile_imp feed
    contradiction
  have whole : s.rdropWhile (· != '\n') ++ s.rtakeWhile (· != '\n') = s :=
    List.rdropWhile_append_rtakeWhile
  rcases List.eq_nil_or_concat (s.rdropWhile (· != '\n')) with none | ⟨above, c, cut⟩
  · rw [none, List.nil_append] at whole
    exact ⟨[], by rw [whole] at single ⊢; exact single⟩
  · rw [List.concat_eq_append] at cut
    have feed : c = '\n' := by
      have last : (s.rdropWhile (· != '\n')).getLast? = some c := by rw [cut, List.getLast?_concat]
      simpa using eq_false_of_getLast?_rdropWhile last
    rw [cut, feed, List.append_assoc, List.singleton_append] at whole
    refine ⟨lines above, ?_⟩
    rw [← single, ← lines_append, whole]

/-- The last character of a text stands at the end of its last line. -/
theorem lines_concat (s : Text) {c : Char} (hc : c ≠ '\n') :
    ∃ front last, lines (s ++ [c]) = front ++ [last ++ [c]] := by
  obtain ⟨front, h⟩ := exists_lines_eq_concat (s ++ [c])
  rw [List.rtakeWhile_concat_pos _ _ _ (by simpa using hc)] at h
  exact ⟨front, _, h⟩

/-- The line on which a text ends is its last one. -/
theorem endLine_eq (s : Text) : endLine s = (lines s).length := (length_lines s).symm

/-- The column behind a text comes after the characters of its last line. -/
theorem endColumn_eq (s : Text) : endColumn s = ((lines s).getLastD []).length + 1 := by
  obtain ⟨front, h⟩ := exists_lines_eq_concat s
  rw [h, List.getLastD_concat, List.rtakeWhile, List.length_reverse]
  rfl

/-- Trimming at the end has a name in the library, and its lemmas are used for it. -/
theorem trimEnd_eq_rdropWhile (p : Char → Bool) (s : Text) : trimEnd p s = s.rdropWhile p := rfl

theorem trimEnd_append_of_all (s : Text) {run : Text} (h : ∀ c ∈ run, p c = true) :
    trimEnd p (s ++ run) = trimEnd p s := by
  unfold trimEnd
  rw [List.reverse_append, List.dropWhile_append_of_pos (by simpa using h)]

end Text

namespace Directive

variable {line kept : Text}

/-- What is left of a line: around it are blanks, and behind these all the carriage returns that
the line ends in. It neither begins nor ends with a blank. -/
structure TrimsTo (line kept : Text) : Prop where
  layout : ∃ indent behind count, line = indent ++ kept ++ behind ++ List.replicate count '\r' ∧
    (∀ c ∈ indent, isBlank c = true) ∧ (∀ c ∈ behind, isBlank c = true) ∧
      (indent ++ kept ++ behind).getLast? ≠ some '\r'
  starts : ∀ c ∈ kept.head?, isBlank c = false
  ends : ∀ c ∈ kept.getLast?, isBlank c = false

theorem trimsTo_trimLine (line : Text) : TrimsTo line (trimLine line) := by
  let body := line.rdropWhile (· == '\r')
  let inner := body.rdropWhile isBlank
  let count := (line.rtakeWhile (· == '\r')).length
  have returns : line.rtakeWhile (· == '\r') = List.replicate count '\r' :=
    List.eq_replicate_of_mem fun c hc => by
      simpa using List.mem_rtakeWhile_imp hc
  have cutReturns : body ++ line.rtakeWhile (· == '\r') = line := List.rdropWhile_append_rtakeWhile
  have cutBehind : inner ++ body.rtakeWhile isBlank = body := List.rdropWhile_append_rtakeWhile
  have cutIndent : inner.takeWhile isBlank ++ trimLine line = inner := List.takeWhile_append_dropWhile
  refine ⟨⟨inner.takeWhile isBlank, body.rtakeWhile isBlank, count, ?_, ?_, ?_, ?_⟩, ?_, ?_⟩
  · rw [cutIndent, cutBehind, ← returns, cutReturns]
  · exact fun c hc => List.mem_takeWhile_imp hc
  · exact fun c hc => List.mem_rtakeWhile_imp hc
  · rw [cutIndent, cutBehind]
    intro last
    exact absurd (Text.eq_false_of_getLast?_rdropWhile last) (by decide)
  · intro c hc
    have first := List.head?_dropWhile_not isBlank inner
    rwa [show (inner.dropWhile isBlank).head? = some c from hc] at first
  · intro c hc
    refine Text.eq_false_of_getLast?_rdropWhile (s := body) ?_
    rw [show body.rdropWhile isBlank = _ from cutIndent.symm, List.getLast?_append, hc]
    rfl

theorem TrimsTo.trimLine_eq (h : TrimsTo line kept) : trimLine line = kept := by
  obtain ⟨⟨indent, behind, count, rfl, before, after, last⟩, starts, ends⟩ := h
  have returns : Text.trimEnd (· == '\r') (indent ++ kept ++ behind ++ List.replicate count '\r') =
      indent ++ kept ++ behind := by
    rw [Text.trimEnd_append_of_all _ (by simp), Text.trimEnd_eq_rdropWhile]
    refine List.rdropWhile_eq_self_iff.mpr fun nonempty isReturn => last ?_
    rw [List.getLast?_eq_some_getLast nonempty, beq_iff_eq.mp isReturn]
  rw [trimLine, returns, Text.trim, Text.trimEnd_append_of_all _ after, Text.trimEnd_eq_rdropWhile]
  rcases List.eq_nil_or_concat kept with rfl | ⟨front, c, rfl⟩
  · rw [List.append_nil, List.rdropWhile_eq_nil_iff.mpr before, List.dropWhile_nil]
  · rw [List.concat_eq_append] at starts ends ⊢
    have tight : isBlank c = false := ends c (by simp)
    rw [← List.append_assoc, List.rdropWhile_concat_neg _ _ _ (by simp [tight]), List.append_assoc,
      List.dropWhile_append_of_pos before]
    cases front with
    | nil => simp [tight]
    | cons d front => simp [starts d (by simp)]

/-- What is left of a line is fixed by what it looks like. -/
theorem trimsTo_iff : TrimsTo line kept ↔ trimLine line = kept := by
  constructor
  · exact TrimsTo.trimLine_eq
  · rintro rfl
    exact trimsTo_trimLine line

theorem mem_of_mem_trimLine {c : Char} (h : c ∈ trimLine line) : c ∈ line := by
  obtain ⟨indent, behind, count, whole, -⟩ := (trimsTo_trimLine line).layout
  rw [whole]
  simp [h]

/-- The last character of a line stays there if it is neither a blank nor a carriage
return. -/
theorem getLast?_trimLine_concat (s : Text) {c : Char} (hr : c ≠ '\r') (hb : isBlank c = false) :
    (trimLine (s ++ [c])).getLast? = some c := by
  obtain ⟨indent, behind, count, whole, before, after, -⟩ := (trimsTo_trimLine (s ++ [c])).layout
  have noBlank {run : Text} (h : ∀ c ∈ run, isBlank c = true) : run.getLast? ≠ some c := by
    intro last
    rw [h c (List.mem_of_getLast? last)] at hb
    contradiction
  have last := congrArg List.getLast? whole
  simp only [List.getLast?_append, List.getLast?_singleton, Option.some_or] at last
  rcases Option.or_eq_some_iff.mp last.symm with isReturn | ⟨-, last⟩
  · exact absurd (List.eq_of_mem_replicate (List.mem_of_getLast? isReturn)) hr
  · rcases Option.or_eq_some_iff.mp last with isBehind | ⟨-, last⟩
    · exact absurd isBehind (noBlank after)
    · rcases Option.or_eq_some_iff.mp last with isKept | ⟨-, isIndent⟩
      · exact isKept
      · exact absurd isIndent (noBlank before)

/-- A line with nothing to trim. -/
theorem trimsTo_self (starts : ∀ c ∈ line.head?, isBlank c = false)
    (ends : ∀ c ∈ line.getLast?, isBlank c = false ∧ c ≠ '\r') : TrimsTo line line := by
  refine ⟨⟨[], [], 0, by simp, by simp, by simp, ?_⟩, starts, fun c hc => (ends c hc).1⟩
  rw [List.nil_append, List.append_nil]
  exact fun last => (ends _ last).2 rfl

end Directive

end WafRules
