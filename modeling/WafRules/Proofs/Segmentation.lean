import WafRules.Proofs.Directives

/-!
# The lines of a directive

Which lines make up the directives of a text, said by the numbers of the lines alone and
without reading them in order. A directive has a row of lines. It begins with a line that
is not blank and no comment, every line of it but the last ends in a backslash, and the last
one does not, unless the text ends there. The lines outside of all rows are blank or
comments. The rows of a text are fixed by this, and cutting a text into directives finds
them.

What the lines of a text are and how they are trimmed is not looked into here: this is said by
`Text.CutInto` and `Directive.TrimsTo`.
-/

namespace WafRules

namespace Directive

/-- The trimmed line stands for nothing where no directive is going on. -/
def BlankOrComment (s : Text) : Prop := s = [] ∨ s.head? = some '#'

def EndsInBackslash (s : Text) : Prop := s.getLast? = some '\\'

instance (s : Text) : Decidable (BlankOrComment s) :=
  inferInstanceAs (Decidable (_ ∨ _))

instance (s : Text) : Decidable (EndsInBackslash s) :=
  inferInstanceAs (Decidable (_ = _))

/-- A trimmed line without one backslash at its end, if it has one. -/
def piece (s : Text) : Text := if EndsInBackslash s then s.dropLast else s

theorem isSkipped_iff {s : Text} : isSkipped s = true ↔ BlankOrComment s := by
  simp [isSkipped, BlankOrComment]

theorem continued?_of_endsInBackslash {s : Text} (h : EndsInBackslash s) :
    continued? s = some (piece s) := by
  rw [continued?, piece, if_pos h]
  exact if_pos h

theorem continued?_of_not_endsInBackslash {s : Text} (h : ¬ EndsInBackslash s) :
    continued? s = none :=
  if_neg h

/-- The line with the given number, trimmed. The first line has number one. -/
def lineAt (s : Text) (i : Nat) : Text := trimLine ((Text.lines s).getD (i - 1) [])

/-- The lines from `first` to `last` are those of one directive: they go on up to the last
one, which does not, or is the final line of the text. -/
structure Runs (line : Nat → Text) (final first last : Nat) : Prop where
  first_le_last : first ≤ last
  last_le_final : last ≤ final
  continued : ∀ i, first ≤ i → i < last → EndsInBackslash (line i)
  complete : EndsInBackslash (line last) → last = final

/-- A row of lines, given by the numbers of the first and the last of them. -/
structure Span where
  first : Nat
  last : Nat
  deriving DecidableEq

namespace Span

def Contains (p : Span) (i : Nat) : Prop := p.first ≤ i ∧ i ≤ p.last

/-- What the lines of a row are joined to. -/
def directive (line : Nat → Text) (p : Span) : Directive where
  line := p.first
  text := (List.range' p.first (p.last + 1 - p.first)).flatMap fun i => piece (line i)

end Span

/-- The rows of the lines from `start` to `final` that are directives. -/
structure Segmentation (line : Nat → Text) (start final : Nat) (spans : List Span) : Prop where
  start_le : ∀ p ∈ spans, start ≤ p.first
  ordered : spans.Pairwise fun p q => p.last < q.first
  begins : ∀ p ∈ spans, ¬ BlankOrComment (line p.first)
  runs : ∀ p ∈ spans, Runs line final p.first p.last
  outside : ∀ i, start ≤ i → i ≤ final → (∀ p ∈ spans, ¬ p.Contains i) → BlankOrComment (line i)

variable {line : Nat → Text} {start final : Nat} {spans : List Span}

theorem Runs.last_unique {m n : Nat} (hm : Runs line final start m)
    (hn : Runs line final start n) : m = n := by
  rcases Nat.lt_trichotomy m n with less | same | greater
  · have := hm.complete (hn.continued m hm.first_le_last less)
    have := hn.last_le_final
    omega
  · exact same
  · have := hn.complete (hm.continued n hn.first_le_last greater)
    have := hm.last_le_final
    omega

/-- A line that does not go on is all there is. -/
theorem Runs.single (h : start ≤ final) (complete : EndsInBackslash (line start) → start = final) :
    Runs line final start start :=
  ⟨Nat.le_refl _, h, fun i hi hi' => by omega, complete⟩

/-- A line that goes on, and what a directive would have that began behind it. -/
theorem Runs.extend {m : Nat} (h : EndsInBackslash (line start))
    (later : Runs line final (start + 1) m) : Runs line final start m where
  first_le_last := Nat.le_of_succ_le later.first_le_last
  last_le_final := later.last_le_final
  continued i hi hi' := by
    by_cases hs : i = start
    · rwa [hs]
    · exact later.continued i (by omega) hi'
  complete := later.complete

theorem exists_runs (h : start ≤ final) : ∃ m, Runs line final start m := by
  induction hn : final - start generalizing start with
  | zero => exact ⟨start, .single h fun _ => by omega⟩
  | succ n ih =>
    by_cases goesOn : EndsInBackslash (line start)
    · obtain ⟨m, later⟩ := ih (show start + 1 ≤ final by omega) (by omega)
      exact ⟨m, later.extend goesOn⟩
    · exact ⟨start, .single h fun hs => absurd hs goesOn⟩

/-- A line is in one row at most. -/
theorem Span.eq_of_contains {i : Nat} (ordered : spans.Pairwise fun p q => p.last < q.first)
    {p q : Span} (hp : p ∈ spans) (hq : q ∈ spans) (inP : p.Contains i) (inQ : q.Contains i) :
    p = q := by
  obtain ⟨firstP, lastP⟩ := inP
  obtain ⟨firstQ, lastQ⟩ := inQ
  induction ordered with
  | nil => cases hp
  | cons before _ ih =>
    rcases List.mem_cons.mp hp with rfl | hp'
    · rcases List.mem_cons.mp hq with rfl | hq'
      · rfl
      · have := before q hq'
        omega
    · rcases List.mem_cons.mp hq with rfl | hq'
      · have := before p hp'
        omega
      · exact ih hp' hq'

namespace Segmentation

theorem nil (h : final < start) : Segmentation line start final [] where
  start_le := by simp
  ordered := .nil
  begins := by simp
  runs := by simp
  outside i hi hi' _ := by omega

theorem skip (h : BlankOrComment (line start)) (later : Segmentation line (start + 1) final spans) :
    Segmentation line start final spans where
  start_le p hp := Nat.le_of_succ_le (later.start_le p hp)
  ordered := later.ordered
  begins := later.begins
  runs := later.runs
  outside i hi hi' free := by
    by_cases hs : i = start
    · rwa [hs]
    · exact later.outside i (by omega) hi' free

theorem cons {m : Nat} (h : ¬ BlankOrComment (line start)) (runs : Runs line final start m)
    (later : Segmentation line (m + 1) final spans) :
    Segmentation line start final (⟨start, m⟩ :: spans) where
  start_le p hp := by
    rcases List.mem_cons.mp hp with rfl | hp
    · exact Nat.le_refl _
    · have := runs.first_le_last
      have := later.start_le p hp
      omega
  ordered := List.pairwise_cons.mpr ⟨later.start_le, later.ordered⟩
  begins := List.forall_mem_cons.mpr ⟨h, later.begins⟩
  runs := List.forall_mem_cons.mpr ⟨runs, later.runs⟩
  outside i hi hi' free := by
    obtain ⟨notFirst, free⟩ := List.forall_mem_cons.mp free
    have behind : m < i := Nat.lt_of_not_le fun him => notFirst ⟨hi, him⟩
    exact later.outside i behind hi' free

theorem exists_contains (h : Segmentation line start final spans) {i : Nat} (hi : start ≤ i)
    (hi' : i ≤ final) (kept : ¬ BlankOrComment (line i)) : ∃ p ∈ spans, p.Contains i := by
  by_cases covered : ∃ p ∈ spans, p.Contains i
  · exact covered
  · exact absurd (h.outside i hi hi' fun p hp inside => covered ⟨p, hp, inside⟩) kept

theorem eq_nil (h : final < start) (segmentation : Segmentation line start final spans) :
    spans = [] := by
  cases spans with
  | nil => rfl
  | cons p spans =>
    have := segmentation.start_le p List.mem_cons_self
    have runs := segmentation.runs p List.mem_cons_self
    have := runs.first_le_last
    have := runs.last_le_final
    omega

theorem of_blankOrComment (h : BlankOrComment (line start))
    (segmentation : Segmentation line start final spans) :
    Segmentation line (start + 1) final spans where
  start_le p hp := by
    have := segmentation.start_le p hp
    by_cases hs : start = p.first
    · exact absurd (hs ▸ h) (segmentation.begins p hp)
    · omega
  ordered := segmentation.ordered
  begins := segmentation.begins
  runs := segmentation.runs
  outside i hi hi' free := segmentation.outside i (by omega) hi' free

/-- A line that is no comment and not blank begins the first row: the row with the line in it
begins there, and all others begin behind the first one. -/
theorem exists_cons (h : ¬ BlankOrComment (line start)) (hf : start ≤ final)
    (segmentation : Segmentation line start final spans) :
    ∃ m others, spans = ⟨start, m⟩ :: others ∧ Runs line final start m ∧
      Segmentation line (m + 1) final others := by
  obtain ⟨p, hp, first, -⟩ := segmentation.exists_contains (Nat.le_refl _) hf h
  obtain ⟨start_le, ordered, begins, runs, outside⟩ := segmentation
  cases spans with
  | nil => cases hp
  | cons q others =>
    obtain ⟨n, m⟩ := q
    obtain ⟨behind, ordered⟩ := List.pairwise_cons.mp ordered
    obtain ⟨runsFirst, runs⟩ := List.forall_mem_cons.mp runs
    obtain ⟨startFirst, -⟩ := List.forall_mem_cons.mp start_le
    have isFirst : n = start := by
      have := runsFirst.first_le_last
      rcases List.mem_cons.mp hp with rfl | hp
      · exact Nat.le_antisymm first startFirst
      · have := behind p hp
        omega
    subst isFirst
    refine ⟨m, others, rfl, runsFirst, behind, ordered, (List.forall_mem_cons.mp begins).2, runs, ?_⟩
    intro i hi hi' free
    have nonempty : n ≤ m := runsFirst.first_le_last
    refine outside i (by omega) hi' (List.forall_mem_cons.mpr ⟨fun inside => ?_, free⟩)
    exact Nat.not_le_of_lt hi inside.2

/-- The rows are fixed. -/
theorem unique {others : List Span} (h : Segmentation line start final spans)
    (h' : Segmentation line start final others) : spans = others := by
  induction hn : final + 1 - start using Nat.strongRecOn generalizing start spans others with
  | ind n ih =>
    by_cases hf : start ≤ final
    · by_cases blank : BlankOrComment (line start)
      · exact ih _ (by omega) (h.of_blankOrComment blank) (h'.of_blankOrComment blank) rfl
      · obtain ⟨m, more, rfl, runs, later⟩ := h.exists_cons blank hf
        obtain ⟨m', more', rfl, runs', later'⟩ := h'.exists_cons blank hf
        obtain rfl := runs.last_unique runs'
        have := runs.first_le_last
        rw [ih _ (by omega) later later' rfl]
    · rw [h.eq_nil (by omega), h'.eq_nil (by omega)]

end Segmentation

/-- The lines from one number to another. -/
def linesBetween (raw : Nat → Text) (start final : Nat) : List Text :=
  (List.range' start (final + 1 - start)).map raw

section Lines

variable {raw : Nat → Text}

theorem linesBetween_eq_nil (h : final < start) : linesBetween raw start final = [] := by
  rw [linesBetween, show final + 1 - start = 0 by omega]
  rfl

theorem linesBetween_eq_cons (h : start ≤ final) :
    linesBetween raw start final = raw start :: linesBetween raw (start + 1) final := by
  rw [linesBetween, show final + 1 - start = final + 1 - (start + 1) + 1 by omega, List.range'_succ]
  rfl

/-- The lines of a row are joined to the directive that is going on. -/
theorem ofLines_of_runs (d : Directive) {m : Nat}
    (runs : Runs (fun i => trimLine (raw i)) final start m) :
    ofLines start (some d) (linesBetween raw start final) =
      { d with text := d.text ++
          (List.range' start (m + 1 - start)).flatMap fun i => piece (trimLine (raw i)) } ::
        ofLines (m + 1) none (linesBetween raw (m + 1) final) := by
  induction hn : m - start generalizing start d with
  | zero =>
    have := runs.first_le_last
    obtain rfl : m = start := by omega
    rw [linesBetween_eq_cons runs.last_le_final, show m + 1 - m = 1 by omega]
    by_cases goesOn : EndsInBackslash (trimLine (raw m))
    · obtain rfl := runs.complete goesOn
      simp [ofLines, continued?_of_endsInBackslash goesOn, linesBetween_eq_nil]
    · simp [ofLines, continued?_of_not_endsInBackslash goesOn, piece, goesOn]
  | succ n ih =>
    have goesOn := runs.continued start (Nat.le_refl _) (by omega)
    have later : Runs (fun i => trimLine (raw i)) final (start + 1) m :=
      ⟨by omega, runs.last_le_final, fun i hi => runs.continued i (by omega), runs.complete⟩
    have := runs.last_le_final
    rw [linesBetween_eq_cons (by omega), show m + 1 - start = m + 1 - (start + 1) + 1 by omega,
      List.range'_succ]
    simp only [ofLines, Option.isNone_some, Bool.false_and, Bool.false_eq_true, if_false,
      continued?_of_endsInBackslash goesOn, Option.getD_some, ih _ later (by omega),
      List.flatMap_cons, List.append_assoc]

/-- The rows exist, and reading the lines in order finds them. -/
theorem exists_segmentation (raw : Nat → Text) (start final : Nat) :
    ∃ spans, Segmentation (fun i => trimLine (raw i)) start final spans ∧
      ofLines start none (linesBetween raw start final) =
        spans.map (Span.directive fun i => trimLine (raw i)) := by
  induction hn : final + 1 - start using Nat.strongRecOn generalizing start with
  | ind n ih =>
    by_cases hf : start ≤ final
    · rw [linesBetween_eq_cons hf]
      by_cases blank : BlankOrComment (trimLine (raw start))
      · obtain ⟨spans, later, read⟩ := ih _ (by omega) (start + 1) rfl
        refine ⟨spans, later.skip blank, ?_⟩
        rw [← read]
        simp [ofLines, isSkipped_iff.mpr blank]
      · obtain ⟨m, runs⟩ : ∃ m, Runs (fun i => trimLine (raw i)) final start m := exists_runs hf
        have := runs.first_le_last
        obtain ⟨spans, later, read⟩ := ih _ (by omega) (m + 1) rfl
        refine ⟨⟨start, m⟩ :: spans, .cons blank runs later, ?_⟩
        have kept : isSkipped (trimLine (raw start)) = false :=
          Bool.eq_false_iff.mpr fun hs => blank (isSkipped_iff.mp hs)
        rw [ofLines_of_not_skipped start _ kept, ← linesBetween_eq_cons hf, ofLines_of_runs _ runs, read]
        rfl
    · exact ⟨[], .nil (by omega), by rw [linesBetween_eq_nil (by omega)]; rfl⟩

end Lines

theorem lines_eq_linesBetween (s : Text) :
    Text.lines s = linesBetween (fun i => (Text.lines s).getD (i - 1) []) 1 (Text.lines s).length := by
  refine List.ext_getElem (by simp [linesBetween]) fun i hi _ => ?_
  simp [linesBetween, List.getD_eq_getElem?_getD, hi]

end Directive

/-- The directives of a text are its rows of lines, in order and joined. There is only one way
to choose these rows, and each line that is no comment and not blank is in one of them. What the
lines of the text are and what is left of each of them is fixed as well. -/
theorem directives_segmentation (s : Text) :
    (∀ ls, Text.CutInto s ls ↔ Text.lines s = ls) ∧
    (∀ i kept, Directive.TrimsTo ((Text.lines s).getD (i - 1) []) kept ↔
      Directive.lineAt s i = kept) ∧
    ∃ spans, Directive.Segmentation (Directive.lineAt s) 1 (Text.lines s).length spans ∧
      directives s = spans.map (Directive.Span.directive (Directive.lineAt s)) ∧
      (∀ others, Directive.Segmentation (Directive.lineAt s) 1 (Text.lines s).length others →
        others = spans) ∧
      ∀ i, 1 ≤ i → i ≤ (Text.lines s).length →
        ¬ Directive.BlankOrComment (Directive.lineAt s i) →
          ∃ p ∈ spans, p.Contains i ∧ ∀ q ∈ spans, q.Contains i → q = p := by
  refine ⟨fun _ => Text.cutInto_iff, fun _ _ => Directive.trimsTo_iff, ?_⟩
  obtain ⟨spans, segmentation, read⟩ := Directive.exists_segmentation
    (fun i => (Text.lines s).getD (i - 1) []) 1 (Text.lines s).length
  rw [← Directive.lines_eq_linesBetween] at read
  refine ⟨spans, segmentation, read, fun others h => h.unique segmentation, ?_⟩
  intro i hi hi' kept
  obtain ⟨p, hp, inside⟩ := segmentation.exists_contains hi hi' kept
  exact ⟨p, hp, inside, fun q hq inside' =>
    Directive.Span.eq_of_contains segmentation.ordered hq hp inside' inside⟩

end WafRules
