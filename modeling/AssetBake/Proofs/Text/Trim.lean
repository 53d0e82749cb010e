import AssetBake.Text.Blank
import AssetBake.Text.Lines
import Mathlib.Data.List.DropRight

/-!
# Blanks at the ends

Which characters are no blanks, what stands between the blanks at the ends of a text, and what blanks
there change.
-/

namespace AssetBake.Text

variable {s w b : List Char} {c : Char}

/-- Letters and digits stand between `0` and `z`. -/
theorem range_of_isAlphanum (h : c.isAlphanum = true) : 0x30 ≤ c.toNat ∧ c.toNat ≤ 0x7a := by
  delta Char.isAlphanum Char.isAlpha Char.isUpper Char.isLower Char.isDigit at h
  simp only [Bool.or_eq_true, Bool.and_eq_true, decide_eq_true_eq, UInt32.le_iff_toNat_le] at h
  change ((0x41 ≤ c.toNat ∧ c.toNat ≤ 0x5a) ∨ (0x61 ≤ c.toNat ∧ c.toNat ≤ 0x7a)) ∨
    (0x30 ≤ c.toNat ∧ c.toNat ≤ 0x39) at h
  omega

theorem isBlank_of_isAlphanum (h : c.isAlphanum = true) : isBlank c = false := by
  have hrange := range_of_isAlphanum h
  simp only [isBlank, Bool.or_eq_false_iff, Bool.and_eq_false_iff, decide_eq_false_iff_not,
    beq_eq_false_iff_ne]
  omega

theorem dropEndWhile_eq_rdropWhile {α : Type} (drop : α → Bool) (s : List α) :
    dropEndWhile drop s = s.rdropWhile drop := rfl

theorem trimEnd_append (s : List Char) (hb : ∀ c ∈ b, isBlank c = true) :
    trimEnd (s ++ b) = trimEnd s := by
  rw [trimEnd, dropEndWhile, List.reverse_append, List.dropWhile_append_of_pos]
  · rfl
  · simpa using hb

theorem trimEnd_cons (hc : isBlank c = false) (s : List Char) :
    trimEnd (c :: s) = c :: trimEnd s := by
  rw [trimEnd, trimEnd, dropEndWhile, dropEndWhile, List.reverse_cons, List.dropWhile_append]
  split
  · next hempty =>
    rw [List.isEmpty_iff.1 hempty, List.dropWhile_cons_of_neg (by simp [hc])]
    rfl
  · rw [List.reverse_append]
    rfl

theorem exists_trimEnd (s : List Char) :
    ∃ b, s = trimEnd s ++ b ∧ ∀ c ∈ b, isBlank c = true := by
  refine ⟨s.rtakeWhile isBlank, ?_, fun c hc => List.mem_rtakeWhile_imp hc⟩
  rw [trimEnd, dropEndWhile_eq_rdropWhile, List.rdropWhile_append_rtakeWhile]

/-- A text is what is left of it between blanks. -/
theorem exists_trim (s : List Char) :
    ∃ w b, s = w ++ (trim s ++ b) ∧ (∀ c ∈ w, isBlank c = true) ∧ ∀ c ∈ b, isBlank c = true := by
  obtain ⟨b, hb, hblank⟩ := exists_trimEnd (trimStart s)
  refine ⟨s.takeWhile isBlank, b, ?_, fun c hc => ?_, hblank⟩
  · rw [trim, ← hb, trimStart, List.takeWhile_append_dropWhile]
  · exact List.all_eq_true.1 List.all_takeWhile c hc

theorem trim_append_cons (hw : ∀ c ∈ w, isBlank c = true) (hc : isBlank c = false) (s : List Char) :
    trim (w ++ c :: s) = c :: trimEnd s := by
  rw [trim, trimStart, List.dropWhile_append_of_pos hw, List.dropWhile_cons_of_neg (by simp [hc]),
    trimEnd_cons hc]

theorem trimStart_of_blank (hb : ∀ c ∈ b, isBlank c = true) : trimStart b = [] := by
  rw [← List.append_nil b, trimStart, List.dropWhile_append_of_pos hb, List.dropWhile_nil]

theorem trim_of_blank (hb : ∀ c ∈ b, isBlank c = true) : trim b = [] := by
  rw [trim, trimStart_of_blank hb]
  rfl

theorem trim_append (s : List Char) (hb : ∀ c ∈ b, isBlank c = true) : trim (s ++ b) = trim s := by
  rw [trim, trim, trimStart, trimStart, List.dropWhile_append]
  split
  · next hempty =>
    rw [List.isEmpty_iff.1 hempty]
    exact congrArg trimEnd (trimStart_of_blank hb)
  · exact trimEnd_append _ hb

theorem trim_withoutLineEnd (line : List Char) : trim (withoutLineEnd line) = trim line := by
  rw [withoutLineEnd]
  split
  · next rest h =>
    rw [← List.reverse_reverse line, h, List.reverse_cons, List.reverse_cons, List.append_assoc,
      trim_append _ (List.all_eq_true.1 (by decide))]
  · next rest _ h =>
    rw [← List.reverse_reverse line, h, List.reverse_cons,
      trim_append _ (List.all_eq_true.1 (by decide))]
  · rfl

end AssetBake.Text
