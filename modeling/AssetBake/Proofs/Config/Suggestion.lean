import AssetBake.Config.Warning
import AssetBake.Proofs.Text.EditDistance

/-!
# Suggested names

Which known name is suggested for an unknown one: the nearest by the number of edits, the first in
order among equally near ones, and none where more than two edits are needed.
-/

namespace AssetBake.Config

open Text

/-! ### The nearest of some names -/

variable {a b c : Nat × List Char} {names : List (Nat × List Char)}

theorem nearer_iff : nearer a b = true ↔
    a.1 < b.1 ∨ a.1 = b.1 ∧ String.ofList a.2 ≤ String.ofList b.2 := by
  simp [nearer]

theorem nearer_refl (a : Nat × List Char) : nearer a a = true :=
  nearer_iff.2 (.inr ⟨rfl, String.le_refl _⟩)

theorem nearer_trans (hab : nearer a b = true) (hbc : nearer b c = true) : nearer a c = true := by
  rw [nearer_iff] at hab hbc ⊢
  rcases hab with hab | ⟨hab, hnames⟩
  · rcases hbc with hbc | ⟨hbc, -⟩
    · exact .inl (Nat.lt_trans hab hbc)
    · exact .inl (hbc ▸ hab)
  · rcases hbc with hbc | ⟨hbc, hnames'⟩
    · exact .inl (hab ▸ hbc)
    · exact .inr ⟨hab.trans hbc, String.le_trans hnames hnames'⟩

theorem nearer_of_not_nearer (h : ¬nearer a b = true) : nearer b a = true := by
  rw [nearer_iff, not_or, Nat.not_lt, not_and] at h
  rw [nearer_iff]
  rcases Nat.lt_or_eq_of_le h.1 with hlt | heq
  · exact .inl hlt
  · exact .inr ⟨heq, (String.le_total _ _).resolve_left (h.2 heq.symm)⟩

theorem eq_of_nearer (hab : nearer a b = true) (hba : nearer b a = true) : a = b := by
  rw [nearer_iff] at hab hba
  have hdistance : a.1 = b.1 := by omega
  have hnames : String.ofList a.2 = String.ofList b.2 :=
    String.le_antisymm (hab.resolve_left (by omega)).2 (hba.resolve_left (by omega)).2
  exact Prod.ext hdistance (String.ofList_injective hnames)

theorem nearest?_eq_none_iff : nearest? names = none ↔ names = [] := by
  cases names with
  | nil => simp [nearest?]
  | cons a rest =>
    rw [nearest?]
    split <;> simp

/-- The nearest name is one of them and as near as every other. -/
theorem nearest?_eq_some_iff :
    nearest? names = some a ↔ a ∈ names ∧ ∀ b ∈ names, nearer a b = true := by
  induction names generalizing a with
  | nil => simp [nearest?]
  | cons first rest ih =>
    -- It is enough to look at the first name and at the nearest of the rest.
    have hwins : ∃ m, nearest? (first :: rest) = some m ∧ m ∈ first :: rest ∧
        ∀ b ∈ first :: rest, nearer m b = true := by
      rw [nearest?]
      cases hrest : nearest? rest with
      | none =>
        rw [nearest?_eq_none_iff.1 hrest]
        exact ⟨first, rfl, List.mem_cons_self, by simpa using nearer_refl first⟩
      | some m =>
        obtain ⟨hmem, hleast⟩ := ih.1 hrest
        dsimp only
        by_cases hnearer : nearer first m = true
        · rw [if_pos hnearer]
          refine ⟨first, rfl, List.mem_cons_self, List.forall_mem_cons.2 ⟨nearer_refl first, ?_⟩⟩
          intro b hb
          exact nearer_trans hnearer (hleast b hb)
        · rw [if_neg hnearer]
          exact ⟨m, rfl, List.mem_cons_of_mem first hmem,
            List.forall_mem_cons.2 ⟨nearer_of_not_nearer hnearer, hleast⟩⟩
    obtain ⟨m, hsome, hmem, hleast⟩ := hwins
    rw [hsome, Option.some.injEq]
    constructor
    · rintro rfl
      exact ⟨hmem, hleast⟩
    · rintro ⟨ha, hall⟩
      exact eq_of_nearer (hleast a ha) (hall m hmem)

/-! ### Suggestions -/

/-- A known name that two edits at most lead to, the nearest of all, and of those the first in
order. -/
structure IsSuggested (wanted : Option (List Char)) (unknown name : List Char) : Prop where
  known : name ∈ candidates wanted
  near : editDistance unknown name ≤ 2
  first : ∀ other ∈ candidates wanted, editDistance unknown name < editDistance unknown other ∨
    editDistance unknown name = editDistance unknown other ∧
      String.ofList name ≤ String.ofList other

variable {wanted : Option (List Char)} {unknown name : List Char}

/-- The known names that are near enough, with their distances. -/
theorem mem_near_iff {near : Nat × List Char} :
    near ∈ ((candidates wanted).map fun c => (editDistance unknown c, c)).filter (·.1 ≤ 2) ↔
      near.2 ∈ candidates wanted ∧ near.1 = editDistance unknown near.2 ∧ near.1 ≤ 2 := by
  rw [List.mem_filter, List.mem_map, decide_eq_true_eq]
  constructor
  · rintro ⟨⟨known, hknown, rfl⟩, hnear⟩
    exact ⟨hknown, rfl, hnear⟩
  · rintro ⟨hknown, hdistance, hnear⟩
    exact ⟨⟨near.2, hknown, Prod.ext hdistance.symm rfl⟩, hnear⟩

theorem suggest?_eq_some_iff : suggest? wanted unknown = some name ↔
    IsSuggested wanted unknown name := by
  simp only [suggest?, Option.map_eq_some_iff, nearest?_eq_some_iff, mem_near_iff, nearer_iff]
  constructor
  · rintro ⟨near, ⟨⟨hknown, hdistance, hnear⟩, hfirst⟩, rfl⟩
    rw [hdistance] at hnear hfirst
    refine ⟨hknown, hnear, fun other hother => ?_⟩
    by_cases hfar : editDistance unknown other ≤ 2
    · exact hfirst (editDistance unknown other, other) ⟨hother, rfl, hfar⟩
    · exact .inl (Nat.lt_of_le_of_lt hnear (Nat.lt_of_not_le hfar))
  · intro h
    refine ⟨(editDistance unknown name, name), ⟨⟨h.known, rfl, h.near⟩, ?_⟩, rfl⟩
    rintro ⟨distance, other⟩ ⟨hother, hdistance, -⟩
    rw [hdistance]
    exact h.first other hother

theorem suggest?_eq_none_iff : suggest? wanted unknown = none ↔
    ∀ known ∈ candidates wanted, 2 < editDistance unknown known := by
  simp only [suggest?, Option.map_eq_none_iff, nearest?_eq_none_iff, List.filter_eq_nil_iff,
    List.mem_map, decide_eq_true_eq, Nat.not_le]
  constructor
  · intro h known hknown
    exact h _ ⟨known, hknown, rfl⟩
  · rintro h near ⟨known, hknown, rfl⟩
    exact h known hknown

/-- Edits are counted exactly, and a name is suggested just if it is near enough, no other known name
is nearer, and none of the equally near ones comes first in order. -/
theorem suggestion_is_nearest :
    (∀ a b : List Char, IsLeast {n | Edits n a b} (editDistance a b)) ∧
    ∀ (wanted : Option (List Char)) (unknown : List Char),
      (∀ name, suggest? wanted unknown = some name ↔ IsSuggested wanted unknown name) ∧
      (suggest? wanted unknown = none ↔
        ∀ known ∈ candidates wanted, 2 < editDistance unknown known) :=
  ⟨isLeast_editDistance, fun _ _ => ⟨fun _ => suggest?_eq_some_iff, suggest?_eq_none_iff⟩⟩

/-- One edit leads from `joines` to `joiner`, and none of the other keys is as near. -/
example : suggest? (some "keys".toList) "joines".toList = some "joiner".toList := by decide

end AssetBake.Config
