import Mathlib

/-!
# Laws of failing computations

Success and failure of `bind` and `mapM` in `Except`: a sequence succeeds if all of its steps do,
and the first failing step determines the error.
-/

namespace ClassAtlas

variable {α β ε : Type}

/-- A bind succeeds if and only if both steps do. -/
theorem bind_eq_ok_iff {first : Except ε α} {second : α → Except ε β} {result : β} :
    (first >>= second) = .ok result ↔ ∃ value, first = .ok value ∧ second value = .ok result := by
  cases first <;> simp [bind, Except.bind]

/-- A bind fails if and only if its first step does, or else its second. -/
theorem bind_eq_error_iff {first : Except ε α} {second : α → Except ε β} {error : ε} :
    (first >>= second) = .error error ↔
      first = .error error ∨ ∃ value, first = .ok value ∧ second value = .error error := by
  cases first <;> simp [bind, Except.bind]

/-- A traversal succeeds if and only if its step succeeds on every item. -/
theorem mapM_eq_ok_iff {step : α → Except ε β} {items : List α} {results : List β} :
    items.mapM step = .ok results ↔
      List.Forall₂ (fun item result => step item = .ok result) items results := by
  induction items generalizing results with
  | nil => simp [pure, Except.pure, eq_comm]
  | cons item items ih =>
    simp only [List.mapM_cons, bind_eq_ok_iff, List.forall₂_cons_left_iff, ih]
    constructor
    · rintro ⟨result, hresult, others, hothers, ⟨⟩⟩
      exact ⟨result, others, hresult, hothers, rfl⟩
    · rintro ⟨result, others, hresult, hothers, rfl⟩
      exact ⟨result, hresult, others, hothers, rfl⟩

/-- A traversal fails with the error of the first item on which its step fails. -/
theorem mapM_eq_error_iff {step : α → Except ε β} {items : List α} {error : ε} :
    items.mapM step = .error error ↔ ∃ before item after, items = before ++ item :: after ∧
      (∀ other ∈ before, ∃ result, step other = .ok result) ∧ step item = .error error := by
  induction items with
  | nil => simp [pure, Except.pure]
  | cons first items ih =>
    simp only [List.mapM_cons, bind_eq_error_iff, ih]
    constructor
    · rintro (hfirst | ⟨result, hresult, ⟨before, item, after, rfl, hbefore, hitem⟩ | ⟨_, _, ⟨⟩⟩⟩)
      · exact ⟨[], first, items, rfl, by simp, hfirst⟩
      · refine ⟨first :: before, item, after, rfl, ?_, hitem⟩
        exact List.forall_mem_cons.mpr ⟨⟨result, hresult⟩, hbefore⟩
    · rintro ⟨before, item, after, hitems, hbefore, hitem⟩
      cases before with
      | nil =>
        obtain ⟨rfl, rfl⟩ := List.cons.inj hitems
        exact .inl hitem
      | cons other before =>
        obtain ⟨rfl, rfl⟩ := List.cons.inj hitems
        obtain ⟨⟨result, hresult⟩, hbefore⟩ := List.forall_mem_cons.mp hbefore
        exact .inr ⟨result, hresult, .inl ⟨before, item, after, rfl, hbefore, hitem⟩⟩

end ClassAtlas
