import Mathlib.Data.Set.List

/-!
# Outcomes

A computation that may fail ends in a value or in an error. The laws here are about the
outcome alone: whether it is a value, what becomes of it when the errors are renamed, and
what it is for a list whose items are computed one after the other. Such a list has a value
if each item has one, and otherwise the error of the first item that has none.
-/

namespace WafRules

theorem exists_eq_ok_iff {ε α : Type} {x : Except ε α} :
    (∃ a, x = .ok a) ↔ ∀ e, x ≠ .error e := by
  cases x with
  | error e => simp
  | ok a => simp

theorem eq_ok_of_toOption {ε α : Type} {x : Except ε α} {a : α} (h : x.toOption = some a) :
    x = .ok a := by
  cases x with
  | error e => cases h
  | ok b => cases h; rfl

theorem mapError_eq_ok_iff {ε ε' α : Type} {f : ε → ε'} {x : Except ε α} {a : α} :
    x.mapError f = .ok a ↔ x = .ok a := by
  cases x with
  | error e => constructor <;> intro h <;> cases h
  | ok b => constructor <;> intro h <;> cases h <;> rfl

theorem mapError_eq_error_iff {ε ε' α : Type} {f : ε → ε'} {x : Except ε α} {e : ε'} :
    x.mapError f = .error e ↔ ∃ e', x = .error e' ∧ f e' = e := by
  constructor
  · intro h
    cases x with
    | error e' => exact ⟨e', rfl, Except.error.inj h⟩
    | ok a => cases h
  · rintro ⟨e', rfl, rfl⟩
    rfl

/-- A list whose items are computed one by one, all of them with a result. -/
theorem mapM_eq_ok_iff {ε α β : Type} {f : α → Except ε β} {xs : List α} {ys : List β} :
    xs.mapM f = .ok ys ↔ xs.map f = ys.map .ok := by
  induction xs generalizing ys with
  | nil => cases ys <;> simp [List.mapM_nil, pure, Except.pure]
  | cons x xs ih =>
    rw [List.mapM_cons]
    cases hx : f x with
    | error e => cases ys <;> simp [bind, Except.bind, hx]
    | ok y =>
      cases hxs : xs.mapM f with
      | error e =>
        cases ys with
        | nil => simp [bind, Except.bind]
        | cons z zs =>
          have refused : ¬ xs.map f = zs.map .ok := fun h => by
            have := ih.mpr h
            rw [hxs] at this
            contradiction
          simp [bind, Except.bind, refused]
      | ok zs =>
        have tail := ih.mp hxs
        cases ys with
        | nil => simp [bind, Except.bind, pure, Except.pure]
        | cons z ys =>
          have same : zs = ys ↔ xs.map f = ys.map .ok := by
            rw [← ih, hxs, Except.ok.injEq]
          simp [bind, Except.bind, pure, Except.pure, hx, same]

/-- The first item of a list that has a property is its head, or comes later. -/
theorem exists_first_cons_iff {α : Type} {P Q : α → Prop} {x : α} {xs : List α} :
    (∃ before y after, x :: xs = before ++ y :: after ∧ P y ∧ ∀ z ∈ before, Q z) ↔
      P x ∨ Q x ∧ ∃ before y after, xs = before ++ y :: after ∧ P y ∧ ∀ z ∈ before, Q z := by
  constructor
  · rintro ⟨before, y, after, split, hy, fine⟩
    cases before with
    | nil =>
      cases split
      exact .inl hy
    | cons z before =>
      cases split
      obtain ⟨head, fine⟩ := List.forall_mem_cons.mp fine
      exact .inr ⟨head, before, y, after, rfl, hy, fine⟩
  · rintro (hx | ⟨hx, before, y, after, rfl, hy, fine⟩)
    · exact ⟨[], x, xs, rfl, hx, by simp⟩
    · exact ⟨x :: before, y, after, rfl, hy, List.forall_mem_cons.mpr ⟨hx, fine⟩⟩

/-- A list whose items are computed one by one ends in the error of the first item that has
one. -/
theorem mapM_eq_error_iff_exists {ε α β : Type} {f : α → Except ε β} {xs : List α} {e : ε} :
    xs.mapM f = .error e ↔
      ∃ before x after, xs = before ++ x :: after ∧ f x = .error e ∧
        ∀ y ∈ before, ∃ z, f y = .ok z := by
  induction xs with
  | nil => simp [pure, Except.pure]
  | cons x xs ih =>
    rw [List.mapM_cons, exists_first_cons_iff, ← ih]
    cases hx : f x with
    | error e' => simp [bind, Except.bind]
    | ok y => cases xs.mapM f <;> simp [bind, Except.bind, pure, Except.pure]

/-- Items that are there one by one are there as a list. -/
theorem exists_map_eq_map {α β γ : Type} {f : α → γ} {g : β → γ} {ys : List β}
    (h : ∀ y ∈ ys, ∃ x, f x = g y) : ∃ xs : List α, xs.map f = ys.map g := by
  have mem : ys.map g ∈ Set.range (List.map f) := by
    rw [Set.range_list_map]
    exact List.forall_mem_map.mpr h
  exact mem

theorem exists_map_eq_map_ok {ε α β : Type} {f : α → Except ε β} {xs : List α}
    (h : ∀ x ∈ xs, ∃ y, f x = .ok y) : ∃ ys : List β, xs.map f = ys.map .ok := by
  have reversed : ∀ x ∈ xs, ∃ y, Except.ok y = f x := fun x hx => by
    obtain ⟨y, hy⟩ := h x hx
    exact ⟨y, hy.symm⟩
  obtain ⟨ys, hys⟩ := exists_map_eq_map reversed
  exact ⟨ys, hys.symm⟩

theorem exists_mapM_eq_ok_iff_forall {ε α β : Type} {f : α → Except ε β} {xs : List α} :
    (∃ ys, xs.mapM f = .ok ys) ↔ ∀ x ∈ xs, ∃ y, f x = .ok y := by
  simp only [mapM_eq_ok_iff]
  constructor
  · rintro ⟨ys, h⟩ x hx
    have result : f x ∈ ys.map Except.ok := h ▸ List.mem_map_of_mem hx
    obtain ⟨y, -, hy⟩ := List.mem_map.mp result
    exact ⟨y, hy.symm⟩
  · exact exists_map_eq_map_ok

/-- Each result comes from an item. -/
theorem exists_of_mapM_eq_ok {ε α β : Type} {f : α → Except ε β} {xs : List α} {ys : List β}
    (h : xs.mapM f = .ok ys) {y : β} (hy : y ∈ ys) : ∃ x ∈ xs, f x = .ok y := by
  have mem : Except.ok y ∈ xs.map f := mapM_eq_ok_iff.mp h ▸ List.mem_map_of_mem hy
  exact List.mem_map.mp mem

/-- Errors may be changed one by one or in the end. -/
theorem mapM_mapError {ε ε' α β : Type} (f : α → Except ε β) (g : ε → ε') (xs : List α) :
    (xs.mapM fun x => (f x).mapError g) = (xs.mapM f).mapError g := by
  induction xs with
  | nil => rfl
  | cons x xs ih =>
    rw [List.mapM_cons, List.mapM_cons, ih]
    cases f x with
    | error e => rfl
    | ok y => cases xs.mapM f <;> rfl

end WafRules
