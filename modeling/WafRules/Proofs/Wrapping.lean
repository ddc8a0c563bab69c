import WafRules.Proofs.LineLayout

/-!
# Wrapped directives

A directive may be written on several lines, with a backslash behind each piece but the last
one. It may be cut anywhere, between quotes as well as beside a backslash, and some pieces may
be empty, as long as no later piece begins with a blank: this would be taken for the indent of
its line. The lines are read as the one directive, on the first of them.
-/

namespace WafRules

/-- A piece of a directive and the layout of the line that it is written on. -/
structure WrappedLine where
  indent : Form.Blanks
  piece : Text
  behind : Form.Blanks
  returns : Nat

namespace WrappedLine

/-- The line, with a mark that says whether it goes on. -/
def text (l : WrappedLine) (mark : Text) : Text :=
  l.indent.text ++ (l.piece ++ mark ++ l.behind.text) ++ List.replicate l.returns '\r'

/-- A line that goes on. -/
def continued (l : WrappedLine) : Text := l.text ['\\']

def final (l : WrappedLine) : Text := l.text []

end WrappedLine

/-- A directive that is cut into pieces, none of which begins with a blank behind the first. -/
structure Wrapping (d : Text) where
  front : List WrappedLine
  last : WrappedLine
  cut : (front ++ [last]).flatMap WrappedLine.piece = d
  inner : ∀ l ∈ (front ++ [last]).tail, ∀ c ∈ l.piece.head?, isBlank c = false

def Wrapping.text {d : Text} (w : Wrapping d) : Text :=
  ['\n'].intercalate (w.front.map WrappedLine.continued ++ [w.last.final])

theorem Text.head?_or_eq_of_concat {s : Text} {c d : Char} (h : c ∈ (s ++ [d]).head?) :
    c ∈ s.head? ∨ c = d := by
  cases s with
  | nil => exact .inr (Option.some.inj h).symm
  | cons e s => exact .inl h

namespace WrappedLine

variable {l : WrappedLine} {mark : Text}

/-- The layout of a wrapped line is trimmed away. -/
theorem trimLine_text (starts : ∀ c ∈ (l.piece ++ mark).head?, isBlank c = false)
    (ends : ∀ c ∈ (l.piece ++ mark).getLast?, isBlank c = false ∧ c ≠ '\r') :
    Directive.trimLine (l.text mark) = l.piece ++ mark := by
  have open_ : (l.piece ++ mark).getLast? ≠ some '\r' := fun last => (ends _ last).2 rfl
  have tight := Directive.trimsTo_self starts ends
  exact (((tight.addBlanks l.behind open_).indent l.indent).addReturns l.returns).trimLine_eq

theorem trimLine_continued (starts : ∀ c ∈ l.piece.head?, isBlank c = false) :
    Directive.trimLine l.continued = l.piece ++ ['\\'] := by
  refine trimLine_text (fun c hc => ?_) fun c hc => ?_
  · rcases Text.head?_or_eq_of_concat hc with head | rfl
    · exact starts c head
    · decide
  · rw [List.getLast?_concat] at hc
    cases hc
    decide

theorem trimLine_final (starts : ∀ c ∈ l.piece.head?, isBlank c = false)
    (ends : ∀ c ∈ l.piece.getLast?, isBlank c = false ∧ c ≠ '\r') :
    Directive.trimLine l.final = l.piece := by
  rw [final, trimLine_text, List.append_nil]
  · rwa [List.append_nil]
  · rwa [List.append_nil]

theorem not_mem_text (hp : '\n' ∉ l.piece) (hm : '\n' ∉ mark) : '\n' ∉ l.text mark := by
  have feed (run : Form.Blanks) : '\n' ∉ run.text := run.not_mem (by decide)
  simp [text, hp, hm, feed, List.mem_replicate]

end WrappedLine

namespace Directive

/-- Behind its beginning a directive goes on line by line, and each line adds its piece. -/
theorem ofLines_wrapped (n : Nat) (d : Directive) {front : List WrappedLine} {last : WrappedLine}
    (starts : ∀ l ∈ front, ∀ c ∈ l.piece.head?, isBlank c = false)
    (trimmed : trimLine last.final = last.piece) (complete : continued? last.piece = none) :
    ofLines n (some d) (front.map WrappedLine.continued ++ [last.final]) =
      [{ d with text := d.text ++ (front ++ [last]).flatMap WrappedLine.piece }] := by
  induction front generalizing n d with
  | nil => simp [ofLines, trimmed, complete]
  | cons l front ih =>
    obtain ⟨first, starts⟩ := List.forall_mem_cons.mp starts
    have goesOn : continued? (trimLine l.continued) = some l.piece := by
      rw [WrappedLine.trimLine_continued first]
      simp [continued?]
    have further := ih (n + 1) { d with text := d.text ++ l.piece } starts
    simp [ofLines, goesOn, further]

end Directive

namespace Wrapping

variable {d : Text}

theorem lines_text (w : Wrapping d) (h : '\n' ∉ d) :
    Text.lines w.text = w.front.map WrappedLine.continued ++ [w.last.final] := by
  have inPiece : ∀ l ∈ w.front ++ [w.last], '\n' ∉ l.piece := by
    intro l hl mem
    exact h (w.cut ▸ List.mem_flatMap.mpr ⟨l, hl, mem⟩)
  refine List.splitOn_intercalate '\n' (List.forall_mem_append.mpr ⟨?_, ?_⟩) (by simp)
  · intro line hline
    obtain ⟨l, hl, rfl⟩ := List.mem_map.mp hline
    exact l.not_mem_text (inPiece l (List.mem_append_left _ hl)) (by decide)
  · intro line hline
    cases List.mem_singleton.mp hline
    exact w.last.not_mem_text (inPiece w.last (by simp)) (by decide)

/-- The first piece begins as the directive does. -/
theorem mem_head?_of_first (w : Wrapping d) {first : WrappedLine} {later : List WrappedLine}
    (h : w.front ++ [w.last] = first :: later) : ∀ c ∈ first.piece.head?, c ∈ d.head? := by
  intro c hc
  rw [← w.cut, h, List.flatMap_cons, List.head?_append, hc]
  rfl

theorem starts (w : Wrapping d) (h : Directive.FitsOnLine d) :
    ∀ l ∈ w.front ++ [w.last], ∀ c ∈ l.piece.head?, isBlank c = false := by
  have inner := w.inner
  obtain ⟨first, later, pieces⟩ := List.exists_cons_of_ne_nil
    (show w.front ++ [w.last] ≠ [] by simp)
  have begins := w.mem_head?_of_first pieces
  rw [pieces] at inner ⊢
  exact List.forall_mem_cons.mpr ⟨fun c hc => (h.starts c (begins c hc)).1, inner⟩

/-- The last piece ends as the directive does. -/
theorem ends (w : Wrapping d) (h : Directive.FitsOnLine d) :
    ∀ c ∈ w.last.piece.getLast?, isBlank c = false ∧ c ≠ '\r' ∧ c ≠ '\\' := by
  intro c hc
  refine h.ends c ?_
  rw [← w.cut, List.flatMap_append, List.flatMap_singleton, List.getLast?_append, hc]
  rfl

theorem trimLine_last (w : Wrapping d) (h : Directive.FitsOnLine d) :
    Directive.trimLine w.last.final = w.last.piece := by
  refine WrappedLine.trimLine_final (w.starts h w.last (by simp)) fun c hc => ?_
  obtain ⟨blank, return_, -⟩ := w.ends h c hc
  exact ⟨blank, return_⟩

theorem last_complete (w : Wrapping d) (h : Directive.FitsOnLine d) :
    Directive.continued? w.last.piece = none :=
  if_neg fun backslash => (w.ends h _ backslash).2.2 rfl

/-- The first line is no comment and not empty, even if its piece is: an empty piece leaves a
backslash, and other pieces begin as the directive does. -/
theorem exists_first_not_skipped (w : Wrapping d) (h : Directive.FitsOnLine d) :
    ∃ line ls, w.front.map WrappedLine.continued ++ [w.last.final] = line :: ls ∧
      Directive.isSkipped (Directive.trimLine line) = false := by
  have starts := w.starts h
  cases pieces : w.front with
  | nil =>
    have whole : w.last.piece = d := by simpa [pieces] using w.cut
    refine ⟨w.last.final, [], rfl, ?_⟩
    rw [w.trimLine_last h, whole]
    exact h.not_skipped
  | cons l front =>
    rw [pieces] at starts
    have comment : (l.piece ++ ['\\']).head? ≠ some '#' := by
      intro head
      rcases Text.head?_or_eq_of_concat head with head | other
      · have all : w.front ++ [w.last] = l :: (front ++ [w.last]) := by rw [pieces]; rfl
        exact (h.starts _ (w.mem_head?_of_first all '#' head)).2 rfl
      · exact absurd other (by decide)
    refine ⟨l.continued, front.map WrappedLine.continued ++ [w.last.final], rfl, ?_⟩
    rw [WrappedLine.trimLine_continued (starts l (by simp))]
    exact Directive.isSkipped_eq_false (by simp) comment

theorem directives_text (w : Wrapping d) (h : Directive.FitsOnLine d) :
    directives w.text = [⟨1, d⟩] := by
  obtain ⟨line, ls, split, kept⟩ := w.exists_first_not_skipped h
  have starts := (List.forall_mem_append.mp (w.starts h)).1
  have joined := Directive.ofLines_wrapped 1 ⟨1, []⟩ starts (w.trimLine_last h) (w.last_complete h)
  rw [w.cut] at joined
  rw [directives, w.lines_text h.line, split, Directive.ofLines_of_not_skipped 1 ls kept, ← split]
  exact joined

end Wrapping

/-- A wrapped directive is read as if it stood on one line: it is the only directive, on line
one, and reading and checking find the same. -/
theorem blocks_wrapped {d : Text} (h : Directive.FitsOnLine d) (w : Wrapping d) :
    directives w.text = [⟨1, d⟩] ∧ directives d = [⟨1, d⟩] ∧
    ∀ workers, parseBlockBy workers w.text = parseBlockBy workers d ∧
      checkBlockBy workers w.text = checkBlockBy workers d := by
  have wrapped := w.directives_text h
  have plain := directives_of_fitsOnLine h
  exact ⟨wrapped, plain, blocks_congr (wrapped.trans plain.symm)⟩

/-- Cut in front of everything, before a sign that would begin a comment, and behind everything. -/
theorem blocks_wrapped_of_comment_sign :
    let d := "SecRule ARGS \"@rx #a\" \"nope\"".toList
    let s := "\\\n  SecRule ARGS \"@rx \\ \r\n#a\" \"nope\"\\\n\t\r".toList
    Directive.FitsOnLine d ∧ (∃ w : Wrapping d, w.text = s) ∧ directives s = [⟨1, d⟩] ∧
    checkBlockBy 1 s = [⟨1, d, "invalid actions: unknown action nope in nope"⟩] := by
  intro d s
  have first : d.head? = some 'S' := by decide +kernel
  have last : d.getLast? = some '"' := by decide +kernel
  have fits : Directive.FitsOnLine d := by
    refine ⟨by decide +kernel, by decide +kernel, fun c hc => ?_, fun c hc => ?_⟩
    · cases first.symm.trans hc
      decide
    · cases last.symm.trans hc
      decide
  let w : Wrapping d := {
    front := [⟨.none, [], .none, 0⟩,
      ⟨⟨[' ', ' '], by simp [isBlank]⟩, "SecRule ARGS \"@rx ".toList, Form.Gap.space.toBlanks, 1⟩,
      ⟨.none, "#a\" \"nope\"".toList, .none, 0⟩]
    last := ⟨⟨['\t'], by simp [isBlank]⟩, [], .none, 1⟩
    cut := by decide +kernel
    inner := by simp [isBlank] }
  have same : w.text = s := by decide +kernel
  obtain ⟨wrapped, -, read⟩ := blocks_wrapped fits w
  rw [same] at wrapped read
  refine ⟨fits, ⟨w, same⟩, wrapped, ?_⟩
  rw [(read 1).2]
  decide +kernel

end WafRules
