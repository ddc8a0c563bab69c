import WafRules.Proofs.Language
import WafRules.Tree.Parse

/-!
# Runs that take a given word

When a run takes exactly the word `w` in front of `r`, and when it refuses a text. There is
one rule for each way in which an expression is put together, so that a run of a production
is found from its parts. A choice needs the refusal of its first alternative, and whatever
is optional or repeated stops only where its item is refused or the text ends.
-/

namespace WafRules

namespace Match

variable {step : Nat → Text → Option Match}

/-- Any fuel as long as the text gives the same repetition, because each round takes something. -/
theorem repeated_congr_fuel (split : ∀ start s m, step start s = some m → m.taken ++ m.rest = s)
    {fuel fuel' : Text} {start : Nat} {s : Text} (h : s.length ≤ fuel.length)
    (h' : s.length ≤ fuel'.length) :
    repeated step fuel start s = repeated step fuel' start s := by
  induction fuel generalizing fuel' start s with
  | nil =>
    have hs : s = [] := List.eq_nil_of_length_eq_zero (Nat.le_zero.mp h)
    subst hs
    cases fuel' <;> rfl
  | cons _ fuel ih =>
    cases s with
    | nil => cases fuel' <;> rfl
    | cons c s =>
      cases fuel' with
      | nil => simp at h'
      | cons _ fuel' =>
        cases hm : step start (c :: s) with
        | none => simp [repeated, hm]
        | some m =>
          by_cases ht : m.taken = []
          · simp [repeated, hm, ht]
          · have whole := congrArg List.length (split start (c :: s) m hm)
            have taken := List.length_pos_iff.mpr ht
            simp only [List.length_append, List.length_cons] at whole h h'
            have tails : repeated step fuel (start + m.taken.length) m.rest =
                repeated step fuel' (start + m.taken.length) m.rest :=
              ih (by omega) (by omega)
            simp [repeated, hm, ht, tails]

/-- One round of a repetition that takes something. -/
theorem repeated_of_step (split : ∀ start s m, step start s = some m → m.taken ++ m.rest = s)
    {start : Nat} {s : Text} {m : Match} (hm : step start s = some m) (ht : m.taken ≠ []) :
    repeated step s start s =
      m.append (repeated step m.rest (start + m.taken.length) m.rest) := by
  cases s with
  | nil =>
    have whole := split start [] m hm
    exact absurd (List.append_eq_nil_iff.mp whole).1 ht
  | cons c s =>
    have whole := congrArg List.length (split start (c :: s) m hm)
    have taken := List.length_pos_iff.mpr ht
    simp only [List.length_append, List.length_cons] at whole
    have tails : repeated step s (start + m.taken.length) m.rest =
        repeated step m.rest (start + m.taken.length) m.rest :=
      repeated_congr_fuel split (by omega) (Nat.le_refl _)
    simp [repeated, hm, ht, tails]

end Match

namespace Expr

/-- In front of `r` the expression takes exactly `w`, and makes these nodes. -/
def Reads (e : Expr) (start : Nat) (w r : Text) (nodes : List Node) : Prop :=
  e.run start (w ++ r) = some ⟨nodes, w, r⟩

/-- The expression takes nothing of the text, wherever that stands. -/
def Refuses (e : Expr) (s : Text) : Prop := ∀ start, e.run start s = none

variable {e f : Expr} {start : Nat} {u v w r : Text} {ns ms : List Node}

theorem Reads.literal (start : Nat) (w r : Text) : (Expr.literal w).Reads start w r [] := by
  have h : w.isPrefixOf (w ++ r) = true := List.isPrefixOf_iff_prefix.mpr ⟨r, rfl⟩
  simp [Reads, run, h]

theorem Reads.token {t : Token} (start : Nat) (h : t.Language w) (hr : t.EndsBefore r) :
    (Expr.token t).Reads start w r [] := by
  simp [Reads, run, Token.scan_of_language h hr]

theorem Reads.seq (hu : e.Reads start u (v ++ r) ns)
    (hv : f.Reads (start + u.length) v r ms) :
    (Expr.seq e f).Reads start (u ++ v) r (ns ++ ms) := by
  simp only [Reads] at hu hv ⊢
  simp [run, List.append_assoc, hu, hv, Match.append]

/-- The second part makes no nodes. -/
theorem Reads.seq_bare (hu : e.Reads start u (v ++ r) ns)
    (hv : f.Reads (start + u.length) v r []) : (Expr.seq e f).Reads start (u ++ v) r ns := by
  have both := hu.seq hv
  rwa [List.append_nil] at both

/-- The same text may be given in another form. -/
theorem Reads.congr_rest {r' : Text} (h : e.Reads start w r ns) (hr : r = r') :
    e.Reads start w r' ns := hr ▸ h

theorem Reads.first (h : e.Reads start w r ns) : (Expr.either e f).Reads start w r ns := by
  simp only [Reads] at h ⊢
  simp [run, h]

theorem Reads.second (he : e.Refuses (w ++ r)) (h : f.Reads start w r ns) :
    (Expr.either e f).Reads start w r ns := by
  simp only [Reads] at h ⊢
  simp [run, he start, h]

theorem Reads.ahead (h : e.Reads start w r ns) : (Expr.ahead e).Reads start [] (w ++ r) [] := by
  simp only [Reads] at h ⊢
  simp [run, h, Match.nothing]

theorem Reads.absent (start : Nat) (h : r = [] ∨ e.Refuses r) :
    (Expr.optional e).Reads start [] r [] := by
  rcases h with rfl | h
  · rfl
  · simp [Reads, run, h start, Match.nothing]

theorem Reads.present (hw : w ≠ []) (h : e.Reads start w r ns) :
    (Expr.optional e).Reads start w r ns := by
  simp only [Reads] at h ⊢
  simp [run, h, hw]

theorem Reads.stop (start : Nat) (h : r = [] ∨ e.Refuses r) :
    (Expr.many e).Reads start [] r [] := by
  cases r with
  | nil => rfl
  | cons c r =>
    have refused := h.resolve_left (List.cons_ne_nil c r)
    simp [Reads, run, Match.repeated, refused start, Match.nothing]

theorem Reads.again (hu : u ≠ []) (h : e.Reads start u (v ++ r) ns)
    (tail : (Expr.many e).Reads (start + u.length) v r ms) :
    (Expr.many e).Reads start (u ++ v) r (ns ++ ms) := by
  simp only [Reads, run, Option.some.injEq, List.append_assoc] at h tail ⊢
  have round : Match.repeated e.run (u ++ (v ++ r)) start (u ++ (v ++ r)) = _ :=
    Match.repeated_of_step (fun _ _ _ => taken_append_rest) h hu
  rw [round, tail]
  simp [Match.append]

theorem Reads.manyOne (hu : u ≠ []) (h : e.Reads start u (v ++ r) ns)
    (tail : (Expr.many e).Reads (start + u.length) v r ms) :
    (Expr.manyOne e).Reads start (u ++ v) r (ns ++ ms) := by
  simp only [Reads, run, Option.some.injEq] at h tail ⊢
  simp [List.append_assoc, h, hu, tail, Match.append]

theorem Reads.rule (name : RuleName) (h : e.Reads start w r ns) :
    (Expr.rule name e).Reads start w r (Match.enclose start name ⟨ns, w, r⟩).nodes := by
  simp only [Reads] at h ⊢
  cases name <;> simp [run, h, Match.enclose]

theorem Refuses.literal {c : Char} {word s : Text} (h : ∀ d ∈ s.head?, d ≠ c) :
    (Expr.literal (c :: word)).Refuses s := by
  intro start
  cases s with
  | nil => rfl
  | cons d s =>
    have hd : ¬ c = d := fun heq => h d rfl heq.symm
    simp [run, List.isPrefixOf, hd]

theorem Refuses.token {t : Token} {s : Text} (h : t.scan s = none) :
    (Expr.token t).Refuses s := by
  intro start
  simp [run, h]

theorem Refuses.seq {s : Text} (h : e.Refuses s) : (Expr.seq e f).Refuses s := by
  intro start
  simp [run, h start]

/-- The first part takes a word, but the second does not go on. -/
theorem Refuses.seq_second (hu : ∀ start, ∃ ns, e.Reads start u r ns) (h : f.Refuses r) :
    (Expr.seq e f).Refuses (u ++ r) := by
  intro start
  obtain ⟨ns, hns⟩ := hu start
  simp only [Reads] at hns
  simp [run, hns, h (start + u.length)]

theorem Refuses.either {s : Text} (he : e.Refuses s) (hf : f.Refuses s) :
    (Expr.either e f).Refuses s := by
  intro start
  simp [run, he start, hf start]

theorem Refuses.manyOne {s : Text} (h : e.Refuses s) : (Expr.manyOne e).Refuses s := by
  intro start
  simp [run, h start]

theorem Refuses.rule {s : Text} (name : RuleName) (h : e.Refuses s) :
    (Expr.rule name e).Refuses s := by
  intro start
  simp [run, h start]

end Expr

/-- A text that the body of a production takes whole is read. -/
theorem Node.parse_of_reads {kind : NodeKind} {w : Text} {ns : List Node}
    (h : (Grammar.production kind).body.Reads 0 w [] ns) :
    Node.parse kind w = .ok ⟨kind, w, ns, 0⟩ := by
  rw [Expr.Reads, List.append_nil] at h
  simp [Node.parse, h]

/-- A text that is read is described by the production. -/
theorem Node.describes_of_parse {kind : NodeKind} {s : Text} {node : Node}
    (h : Node.parse kind s = .ok node) : (Grammar.production kind).body.Describes s [] := by
  simp only [Node.parse] at h
  split at h
  · contradiction
  · rename_i m hm
    split at h
    · rename_i he
      have rest := List.isEmpty_iff.mp he
      have whole := Expr.taken_append_rest hm
      have described := Expr.describes_of_run hm
      rw [rest, List.append_nil] at whole
      rwa [whole, rest] at described
    · contradiction

end WafRules
