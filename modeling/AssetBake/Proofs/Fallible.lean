import Mathlib.Data.List.Forall2

/-!
# Fallible steps

Steps that may fail, one after another. A sequence of them gives all its results, or fails with the
first step that fails.
-/

namespace AssetBake

variable {ε α β : Type}

/-! ### Two steps -/

@[simp] theorem Except.ok_bind (a : α) (f : α → Except ε β) : (Except.ok a >>= f) = f a := rfl

@[simp] theorem Except.error_bind (e : ε) (f : α → Except ε β) :
    (Except.error e >>= f) = .error e := rfl

@[simp] theorem Except.pure_eq (a : α) : (pure a : Except ε α) = .ok a := rfl

@[simp] theorem Except.throw_eq (e : ε) : (throw e : Except ε α) = .error e := rfl

theorem Except.bind_eq_ok_iff {x : Except ε α} {f : α → Except ε β} {b : β} :
    (x >>= f) = .ok b ↔ ∃ a, x = .ok a ∧ f a = .ok b := by
  cases x <;> simp

theorem Except.bind_eq_error_iff {x : Except ε α} {f : α → Except ε β} {e : ε} :
    (x >>= f) = .error e ↔ x = .error e ∨ ∃ a, x = .ok a ∧ f a = .error e := by
  cases x <;> simp

theorem Except.map_eq_ok_iff {x : Except ε α} {f : α → β} {b : β} :
    x.map f = .ok b ↔ ∃ a, x = .ok a ∧ f a = b := by
  cases x <;> simp [Except.map]

theorem Except.map_eq_error_iff {x : Except ε α} {f : α → β} {e : ε} :
    x.map f = .error e ↔ x = .error e := by
  cases x <;> simp [Except.map]

theorem Except.mapError_eq_ok_iff {ε' : Type} {x : Except ε α} {f : ε → ε'} {a : α} :
    x.mapError f = .ok a ↔ x = .ok a := by
  cases x <;> simp [Except.mapError]

theorem Except.ok_or_error (x : Except ε α) : (∃ a, x = .ok a) ∨ ∃ e, x = .error e := by
  cases x with
  | ok a => exact .inl ⟨a, rfl⟩
  | error e => exact .inr ⟨e, rfl⟩

/-! ### A step for each element of a list -/

/-- A search for what fails a check finds nothing just if everything passes. -/
theorem find?_not_eq_none_iff {p : α → Bool} {l : List α} :
    l.find? (fun a => !p a) = none ↔ ∀ a ∈ l, p a = true := by
  simp [List.find?_eq_none]

theorem exists_of_mem_forall₂ {R : α → β → Prop} {l : List α} {ys : List β}
    (h : List.Forall₂ R l ys) {a : α} (ha : a ∈ l) : ∃ y ∈ ys, R a y := by
  induction h with
  | nil => simp at ha
  | @cons b y l ys hby _ ih =>
    rcases List.mem_cons.1 ha with rfl | ha
    · exact ⟨y, List.mem_cons_self, hby⟩
    · obtain ⟨z, hz, haz⟩ := ih ha
      exact ⟨z, List.mem_cons_of_mem _ hz, haz⟩

theorem mapM_eq_ok_iff {f : α → Except ε β} {l : List α} {ys : List β} :
    l.mapM f = .ok ys ↔ List.Forall₂ (fun a y => f a = .ok y) l ys := by
  induction l generalizing ys with
  | nil => cases ys <;> simp
  | cons a l ih =>
    simp only [List.mapM_cons, Except.bind_eq_ok_iff, ih, List.forall₂_cons_left_iff]
    simp [eq_comm]

theorem mapM_eq_error_iff {f : α → Except ε β} {l : List α} {e : ε} :
    l.mapM f = .error e ↔ ∃ front a back, l = front ++ a :: back ∧
      (∀ b ∈ front, ∃ y, f b = .ok y) ∧ f a = .error e := by
  induction l with
  | nil => simp
  | cons a l ih =>
    simp only [List.mapM_cons, Except.bind_eq_error_iff, ih]
    constructor
    · rintro (hfirst | ⟨y, hfirst, ⟨front, b, back, rfl, hfront, hb⟩ | ⟨ys, _, hpure⟩⟩)
      · exact ⟨[], a, l, rfl, by simp, hfirst⟩
      · exact ⟨a :: front, b, back, rfl, List.forall_mem_cons.2 ⟨⟨y, hfirst⟩, hfront⟩, hb⟩
      · cases hpure
    · rintro ⟨front, b, back, hsplit, hfront, hb⟩
      cases front with
      | nil =>
        cases hsplit
        exact .inl hb
      | cons c front =>
        cases hsplit
        obtain ⟨⟨y, hfirst⟩, hrest⟩ := List.forall_mem_cons.1 hfront
        exact .inr ⟨y, hfirst, .inl ⟨front, b, back, rfl, hrest, hb⟩⟩

end AssetBake
