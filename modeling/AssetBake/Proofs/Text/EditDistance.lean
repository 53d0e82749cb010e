import AssetBake.Text.EditDistance
import Mathlib.Order.Bounds.Defs
import Mathlib.Order.Lattice.Nat

/-!
# Edits

The edit distance is the least number of single edits that lead from one sequence to another. The rows
of its table hold the distances of the reversed prefixes, which satisfy the recurrence of the distance
from the front; and reversing a chain of edits turns the one into the other.
-/

namespace AssetBake.Text

variable {α : Type} {s t u : List α} {n : Nat}

/-! ### Chains of edits -/

/-- One element is inserted, deleted or replaced by another. -/
inductive Edit : List α → List α → Prop
  | insert (front : List α) (a : α) (back : List α) : Edit (front ++ back) (front ++ a :: back)
  | delete (front : List α) (a : α) (back : List α) : Edit (front ++ a :: back) (front ++ back)
  | substitute (front : List α) (a b : α) (back : List α) :
      Edit (front ++ a :: back) (front ++ b :: back)

/-- So many edits lead from one sequence to another. -/
inductive Edits : Nat → List α → List α → Prop
  | refl (s : List α) : Edits 0 s s
  | step {n : Nat} {s t u : List α} (first : Edit s t) (rest : Edits n t u) : Edits (n + 1) s u

theorem Edit.cons (a : α) (h : Edit s t) : Edit (a :: s) (a :: t) := by
  cases h with
  | insert front b back => exact .insert (a :: front) b back
  | delete front b back => exact .delete (a :: front) b back
  | substitute front b c back => exact .substitute (a :: front) b c back

theorem Edit.reverse (h : Edit s t) : Edit s.reverse t.reverse := by
  cases h with
  | insert front a back => simpa using Edit.insert back.reverse a front.reverse
  | delete front a back => simpa using Edit.delete back.reverse a front.reverse
  | substitute front a b back => simpa using Edit.substitute back.reverse a b front.reverse

theorem Edits.cons (a : α) (h : Edits n s t) : Edits n (a :: s) (a :: t) := by
  induction h with
  | refl s => exact .refl (a :: s)
  | step first _ ih => exact .step (first.cons a) ih

theorem Edits.reverse (h : Edits n s t) : Edits n s.reverse t.reverse := by
  induction h with
  | refl s => exact .refl s.reverse
  | step first _ ih => exact .step first.reverse ih

theorem edits_reverse_iff : Edits n s.reverse t.reverse ↔ Edits n s t := by
  refine ⟨fun h => ?_, Edits.reverse⟩
  simpa using h.reverse

theorem edits_nil_left (t : List α) : Edits t.length [] t := by
  induction t with
  | nil => exact .refl []
  | cons b t ih => exact .step (.insert [] b []) (ih.cons b)

theorem edits_nil_right (s : List α) : Edits s.length s [] := by
  induction s with
  | nil => exact .refl []
  | cons a s ih => exact .step (.delete [] a s) ih

/-! ### The recurrence -/

variable [DecidableEq α]

/-- The edit distance by its recurrence from the front. -/
def levenshtein : List α → List α → Nat
  | [], t => t.length
  | s, [] => s.length
  | a :: s, b :: t =>
    min (min (levenshtein s t + if a = b then 0 else 1) (levenshtein (a :: s) t + 1))
      (levenshtein s (b :: t) + 1)
termination_by s t => s.length + t.length

theorem levenshtein_nil_left (t : List α) : levenshtein [] t = t.length := by
  rw [levenshtein]

theorem levenshtein_nil_right (s : List α) : levenshtein s [] = s.length := by
  cases s with
  | nil => rw [levenshtein]
  | cons a s =>
    rw [levenshtein]
    exact List.cons_ne_nil a s

theorem levenshtein_cons_cons (a b : α) (s t : List α) : levenshtein (a :: s) (b :: t) =
    min (min (levenshtein s t + if a = b then 0 else 1) (levenshtein (a :: s) t + 1))
      (levenshtein s (b :: t) + 1) := by
  rw [levenshtein]

theorem levenshtein_cons_right_le (s : List α) (b : α) (t : List α) :
    levenshtein s (b :: t) ≤ levenshtein s t + 1 := by
  cases s with
  | nil => simp [levenshtein_nil_left]
  | cons a s =>
    rw [levenshtein_cons_cons]
    exact Nat.le_trans (Nat.min_le_left _ _) (Nat.min_le_right _ _)

theorem levenshtein_cons_left_le (a : α) (s t : List α) :
    levenshtein (a :: s) t ≤ levenshtein s t + 1 := by
  cases t with
  | nil => simp [levenshtein_nil_right]
  | cons b t =>
    rw [levenshtein_cons_cons]
    exact Nat.min_le_right _ _

theorem levenshtein_le_cons_left (a : α) (s t : List α) :
    levenshtein s t ≤ levenshtein (a :: s) t + 1 := by
  induction t with
  | nil =>
    rw [levenshtein_nil_right, levenshtein_nil_right, List.length_cons]
    omega
  | cons b t ih =>
    have hright := levenshtein_cons_right_le s b t
    rw [levenshtein_cons_cons]
    omega

theorem levenshtein_substitute_le (a b : α) (s t : List α) :
    levenshtein (a :: s) t ≤ levenshtein (b :: s) t + 1 := by
  induction t with
  | nil =>
    rw [levenshtein_nil_right, levenshtein_nil_right, List.length_cons, List.length_cons]
    omega
  | cons c t ih =>
    rw [levenshtein_cons_cons, levenshtein_cons_cons]
    have hcost : (if a = c then 0 else 1) ≤ 1 := by split <;> omega
    omega

/-- Two sequences of nearly the same distances keep them behind a common element. -/
theorem levenshtein_cons_le {s s' : List α}
    (h : ∀ t, levenshtein s t ≤ levenshtein s' t + 1) (a : α) (t : List α) :
    levenshtein (a :: s) t ≤ levenshtein (a :: s') t + 1 := by
  induction t with
  | nil =>
    have hlength := h []
    rw [levenshtein_nil_right, levenshtein_nil_right] at hlength ⊢
    rw [List.length_cons, List.length_cons]
    omega
  | cons b t ih =>
    have hboth := h t
    have hleft := h (b :: t)
    rw [levenshtein_cons_cons, levenshtein_cons_cons]
    omega

/-- One edit changes a distance by one at most. -/
theorem Edit.levenshtein_le (h : Edit s t) (u : List α) :
    levenshtein s u ≤ levenshtein t u + 1 := by
  have hfront {s t : List α} (hback : ∀ u, levenshtein s u ≤ levenshtein t u + 1)
      (front : List α) : ∀ u, levenshtein (front ++ s) u ≤ levenshtein (front ++ t) u + 1 := by
    induction front with
    | nil => exact hback
    | cons a front ih => exact levenshtein_cons_le ih a
  cases h with
  | insert front a back => exact hfront (levenshtein_le_cons_left a back) front u
  | delete front a back => exact hfront (levenshtein_cons_left_le a back) front u
  | substitute front a b back => exact hfront (levenshtein_substitute_le a b back) front u

theorem levenshtein_self (s : List α) : levenshtein s s = 0 := by
  induction s with
  | nil => exact levenshtein_nil_left []
  | cons a s ih =>
    rw [levenshtein_cons_cons, ih, if_pos rfl]
    simp

/-- No chain of edits is shorter than the distance. -/
theorem Edits.levenshtein_le (h : Edits n s t) : levenshtein s t ≤ n := by
  induction h with
  | refl s => exact Nat.le_of_eq (levenshtein_self s)
  | @step n s t u first _ ih => exact Nat.le_trans (first.levenshtein_le u) (Nat.succ_le_succ ih)

/-- A chain of edits is as short as the distance. -/
theorem edits_levenshtein (s t : List α) : Edits (levenshtein s t) s t := by
  fun_induction levenshtein s t with
  | case1 t => exact edits_nil_left t
  | case2 s _ => exact edits_nil_right s
  | case3 a s b t hboth hright hleft =>
    -- The least of the three entries says which edit comes first.
    rcases Nat.le_total (min (levenshtein s t + if a = b then 0 else 1)
      (levenshtein (a :: s) t + 1)) (levenshtein s (b :: t) + 1) with hmin | hmin
    · rw [Nat.min_eq_left hmin]
      rcases Nat.le_total (levenshtein s t + if a = b then 0 else 1)
        (levenshtein (a :: s) t + 1) with hentry | hentry
      · rw [Nat.min_eq_left hentry]
        by_cases hab : a = b
        · subst hab
          simpa using hboth.cons a
        · rw [if_neg hab]
          exact .step (.substitute [] a b s) (hboth.cons b)
      · rw [Nat.min_eq_right hentry]
        exact .step (.insert [] b (a :: s)) (hright.cons b)
    · rw [Nat.min_eq_right hmin]
      exact .step (.delete [] a s) hleft

/-- The recurrence gives the least number of edits. -/
theorem levenshtein_isLeast (s t : List α) : IsLeast {n | Edits n s t} (levenshtein s t) :=
  ⟨edits_levenshtein s t, fun _ h => h.levenshtein_le⟩

/-! ### The rows of the table -/

/-- The distances of a sequence to a second one, to that with one more element in front, and so on
until all the given elements are in front of it. -/
def distances (s t : List α) : List α → List Nat
  | [] => [levenshtein s t]
  | b :: more => levenshtein s t :: distances s (b :: t) more

theorem distances_eq_cons (s t more : List α) :
    distances s t more = levenshtein s t :: (distances s t more).tail := by
  cases more <;> rfl

/-- The entries of a row follow from the entries beside and above them. -/
theorem nextRow_distances (a : α) (s t more : List α) :
    nextRow a (levenshtein s t) (levenshtein (a :: s) t) more (distances s t more).tail =
      (distances (a :: s) t more).tail := by
  induction more generalizing t with
  | nil => rfl
  | cons b more ih =>
    rw [distances, List.tail_cons, distances, List.tail_cons, distances_eq_cons s (b :: t),
      distances_eq_cons (a :: s) (b :: t), nextRow]
    rw [← levenshtein_cons_cons, ih]

/-- A row becomes the row of a sequence with one more element. -/
theorem distanceRow_distances (a : α) (s b : List α) :
    distanceRow b (distances s [] b) a = distances (a :: s) [] b := by
  have hcorner : levenshtein s [] + 1 = levenshtein (a :: s) [] := by
    rw [levenshtein_nil_right, levenshtein_nil_right, List.length_cons]
  rw [distances_eq_cons s, distanceRow, hcorner, nextRow_distances, ← distances_eq_cons]

/-- The first row counts the elements. -/
theorem range'_eq_distances (t more : List α) :
    List.range' t.length (more.length + 1) = distances [] t more := by
  induction more generalizing t with
  | nil => simp [distances, levenshtein_nil_left]
  | cons b more ih =>
    rw [List.length_cons, List.range'_succ, distances, levenshtein_nil_left, ← ih (b :: t),
      List.length_cons]

theorem getLastD_distances (s t more : List α) :
    (distances s t more).getLastD 0 = levenshtein s (more.reverse ++ t) := by
  induction more generalizing t with
  | nil => rfl
  | cons b more ih =>
    have hlast := ih (b :: t)
    rw [distances_eq_cons] at hlast
    rw [distances, distances_eq_cons s (b :: t), List.reverse_cons, List.append_assoc,
      List.singleton_append, ← hlast]
    rfl

theorem foldl_distanceRow (a s b : List α) :
    a.foldl (distanceRow b) (distances s [] b) = distances (a.reverse ++ s) [] b := by
  induction a generalizing s with
  | nil => rfl
  | cons c a ih =>
    rw [List.foldl_cons, distanceRow_distances, ih, List.reverse_cons, List.append_assoc,
      List.singleton_append]

/-- The table computes the distance of the reversed sequences. -/
theorem editDistance_eq (a b : List α) :
    editDistance a b = levenshtein a.reverse b.reverse := by
  have hfirst : List.range (b.length + 1) = distances [] [] b := by
    rw [List.range_eq_range']
    exact range'_eq_distances [] b
  rw [editDistance, hfirst, foldl_distanceRow, getLastD_distances, List.append_nil,
    List.append_nil]

/-- The edit distance is the least number of edits that lead from the one to the other. -/
theorem isLeast_editDistance (a b : List α) : IsLeast {n | Edits n a b} (editDistance a b) := by
  have hleast := levenshtein_isLeast a.reverse b.reverse
  simp only [edits_reverse_iff] at hleast
  rwa [editDistance_eq]

end AssetBake.Text
