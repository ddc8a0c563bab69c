import WafRules.Proofs.Lines
import WafRules.Proofs.WellFormed

/-!
# Blocks in parts

A block is cut line by line. All that is passed on from one line to the next is the
directive that is still going on, so the directives of two texts with a line feed between
them are those of the one and those of the other, unless the first text breaks off inside a
directive. Reading a block is reading the text of each directive.
-/

namespace WafRules

namespace Directive

/-- What one line does: the directive that ends with it, and the one that goes on behind it. -/
def step (n : Nat) (pending : Option Directive) (line : Text) :
    Option Directive × Option Directive :=
  let s := trimLine line
  if pending.isNone && isSkipped s then (none, none)
  else
    let d := pending.getD ⟨n, []⟩
    match continued? s with
    | some piece => (none, some { d with text := d.text ++ piece })
    | none => (some { d with text := d.text ++ s }, none)

/-- Cutting lines is one step after the other. -/
theorem ofLines_cons (n : Nat) (pending : Option Directive) (line : Text) (ls : List Text) :
    ofLines n pending (line :: ls) =
      (step n pending line).1.toList ++ ofLines (n + 1) (step n pending line).2 ls := by
  simp only [ofLines, step]
  split
  · rfl
  · cases continued? (trimLine line) <;> rfl

/-- A line that is not skipped is read as if its directive had begun in front of it. -/
theorem ofLines_of_not_skipped (n : Nat) {line : Text} (ls : List Text)
    (h : isSkipped (trimLine line) = false) :
    ofLines n none (line :: ls) = ofLines n (some ⟨n, []⟩) (line :: ls) := by
  simp [ofLines, h]

/-- Whether a directive is still going on behind the lines. -/
def goesOn : Bool → List Text → Bool
  | pending, [] => pending
  | pending, line :: lines =>
    let s := trimLine line
    goesOn (if !pending && isSkipped s then false else (continued? s).isSome) lines

theorem goesOn_cons (n : Nat) (pending : Option Directive) (line : Text) (ls : List Text) :
    goesOn pending.isSome (line :: ls) = goesOn (step n pending line).2.isSome ls := by
  have none_iff : (!pending.isSome) = pending.isNone := by cases pending <;> rfl
  simp only [goesOn, step, none_iff]
  split
  · rfl
  · cases continued? (trimLine line) <;> rfl

theorem goesOn_append (pending : Bool) (xs ys : List Text) :
    goesOn pending (xs ++ ys) = goesOn (goesOn pending xs) ys := by
  induction xs generalizing pending with
  | nil => rfl
  | cons line xs ih => exact ih _

/-- Nothing goes on behind a last line that is not continued. -/
theorem goesOn_concat (pending : Bool) (front : List Text) {last : Text}
    (h : continued? (trimLine last) = none) : goesOn pending (front ++ [last]) = false := by
  rw [goesOn_append]
  simp [goesOn, h]

/-- The same directive, counted from a later line. -/
def shift (k : Nat) (d : Directive) : Directive := { d with line := d.line + k }

theorem step_shift (k n : Nat) (pending : Option Directive) (line : Text) :
    step (n + k) (pending.map (shift k)) line =
      ((step n pending line).1.map (shift k), (step n pending line).2.map (shift k)) := by
  have started : (pending.map (shift k)).getD ⟨n + k, []⟩ = shift k (pending.getD ⟨n, []⟩) := by
    cases pending <;> rfl
  simp only [step, Option.isNone_map, started]
  split
  · rfl
  · cases continued? (trimLine line) <;> rfl

theorem ofLines_shift (k n : Nat) (pending : Option Directive) (ls : List Text) :
    ofLines (n + k) (pending.map (shift k)) ls = (ofLines n pending ls).map (shift k) := by
  induction ls generalizing n pending with
  | nil => cases pending <;> rfl
  | cons line ls ih =>
    rw [ofLines_cons, ofLines_cons, step_shift, Nat.add_right_comm, ih, List.map_append,
      Option.toList_map]

/-- Lines that are read behind others are read as if they stood alone. -/
theorem ofLines_append (n : Nat) (pending : Option Directive) (xs ys : List Text)
    (h : goesOn pending.isSome xs = false) :
    ofLines n pending (xs ++ ys) =
      ofLines n pending xs ++ ofLines (n + xs.length) none ys := by
  induction xs generalizing n pending with
  | nil =>
    cases pending with
    | none => rfl
    | some d => cases h
  | cons line xs ih =>
    rw [goesOn_cons n] at h
    rw [List.cons_append, ofLines_cons, ofLines_cons, ih _ _ h, List.append_assoc,
      List.length_cons, Nat.add_right_comm, Nat.add_assoc]

/-- The texts behind a step are made of the line and of what was going on before. -/
theorem not_mem_step {c : Char} {n : Nat} {pending : Option Directive} {line : Text}
    (hline : c ∉ line) (hp : ∀ d ∈ pending, c ∉ d.text) :
    (∀ d ∈ (step n pending line).1, c ∉ d.text) ∧ ∀ d ∈ (step n pending line).2, c ∉ d.text := by
  have trimmed : c ∉ trimLine line := fun h => hline (mem_of_mem_trimLine h)
  have begun : c ∉ (pending.getD ⟨n, []⟩).text := by
    cases pending with
    | none => exact List.not_mem_nil
    | some p => exact hp p rfl
  simp only [step]
  split
  · exact ⟨by simp, by simp⟩
  · cases hpiece : continued? (trimLine line) with
    | none => simp [begun, trimmed]
    | some piece =>
      have cut : c ∉ piece := by
        rw [continued?] at hpiece
        split at hpiece
        · cases hpiece
          exact fun h => trimmed (List.dropLast_subset _ h)
        · cases hpiece
      simp [begun, cut]

/-- The text of a directive is made of its lines. -/
theorem not_mem_of_mem_ofLines {c : Char} (n : Nat) (pending : Option Directive) (ls : List Text)
    (hls : ∀ line ∈ ls, c ∉ line) (hp : ∀ d ∈ pending, c ∉ d.text) :
    ∀ d ∈ ofLines n pending ls, c ∉ d.text := by
  induction ls generalizing n pending with
  | nil =>
    intro d hd
    cases pending with
    | none => cases hd
    | some p =>
      cases List.mem_singleton.mp hd
      exact hp _ rfl
  | cons line ls ih =>
    obtain ⟨hline, hls⟩ := List.forall_mem_cons.mp hls
    obtain ⟨ended, open_⟩ := not_mem_step (n := n) hline hp
    intro d hd
    rw [ofLines_cons, List.mem_append, Option.mem_toList] at hd
    rcases hd with hd | hd
    · exact ended d hd
    · exact ih (n + 1) _ hls open_ d hd

theorem isSkipped_eq_false {s : Text} (nonempty : s ≠ []) (comment : s.head? ≠ some '#') :
    isSkipped s = false := by
  simp [isSkipped, nonempty, comment]

/-- The text can stand on a line of its own as it is, and is a complete directive there. -/
structure FitsOnLine (d : Text) : Prop where
  nonempty : d ≠ []
  line : '\n' ∉ d
  starts : ∀ c ∈ d.head?, isBlank c = false ∧ c ≠ '#'
  ends : ∀ c ∈ d.getLast?, isBlank c = false ∧ c ≠ '\r' ∧ c ≠ '\\'

namespace FitsOnLine

variable {d : Text}

theorem trimLine_eq (h : FitsOnLine d) : trimLine d = d := by
  refine (trimsTo_self (fun c hc => (h.starts c hc).1) fun c hc => ?_).trimLine_eq
  obtain ⟨blank, return_, -⟩ := h.ends c hc
  exact ⟨blank, return_⟩

theorem not_skipped (h : FitsOnLine d) : isSkipped d = false :=
  isSkipped_eq_false h.nonempty fun head => (h.starts _ head).2 rfl

theorem complete (h : FitsOnLine d) : continued? d = none :=
  if_neg fun last => (h.ends _ last).2.2 rfl

end FitsOnLine

theorem value_logging {α : Type} (outcome : Except ReadError α) :
    (Model.logging outcome).value = outcome := by
  cases outcome <;> rfl

theorem value_read (d : Directive) :
    d.read.value = (Model.parse d.text).mapError (DirectiveError.mk d) := by
  rw [read, Logged.value_bind, Model.parseLogged, value_logging]
  rfl

/-- Reading a row of directives reads each of them, as far as the first that is invalid. -/
theorem value_readAll (ds : List Directive) :
    (readAll ds).value = ds.mapM fun d => d.read.value := by
  induction ds with
  | nil => rfl
  | cons d ds ih =>
    rw [readAll, Logged.value_bind, List.mapM_cons, ← ih]
    cases d.read.value with
    | error e => rfl
    | ok r => rw [Logged.value_bind]; cases (readAll ds).value <;> rfl

end Directive

theorem directives_of_fitsOnLine {d : Text} (h : Directive.FitsOnLine d) :
    directives d = [⟨1, d⟩] := by
  rw [directives, Text.lines_of_not_mem h.line]
  simp [Directive.ofLines, h.trimLine_eq, h.not_skipped, h.complete]

/-- No directive has a line feed in it. -/
theorem not_mem_of_mem_directives {s : Text} {d : Directive} (h : d ∈ directives s) :
    '\n' ∉ d.text :=
  Directive.not_mem_of_mem_ofLines 1 none (Text.lines s) (fun _ => Text.not_mem_of_mem_lines)
    (fun _ hd => by cases hd) d h

/-- The directives of a text whose last line is complete, and those of what follows. -/
theorem directives_append (s t : Text) (h : Directive.goesOn false (Text.lines s) = false) :
    directives (s ++ '\n' :: t) =
      directives s ++ (directives t).map (Directive.shift (Text.lines s).length) := by
  rw [directives, Text.lines_append, Directive.ofLines_append 1 none _ _ h]
  exact congrArg _ (Directive.ofLines_shift (Text.lines s).length 1 none (Text.lines t))

/-- A block is read exactly if each of its directives is. -/
theorem parseBlock_eq_ok_iff {s : Text} {rules : List Rule} :
    (parseBlock s).value = .ok rules ↔
      (directives s).map (fun d => Model.parse d.text) = rules.map .ok := by
  rw [parseBlock, Directive.value_readAll, mapM_eq_ok_iff]
  simp only [Directive.value_read]
  generalize directives s = ds
  induction ds generalizing rules with
  | nil => simp
  | cons d ds ih =>
    cases rules with
    | nil => simp
    | cons r rules => simp only [List.map_cons, List.cons.injEq, mapError_eq_ok_iff, ih]

end WafRules
