import AssetBake.Text.Lines

/-!
# Pieces, lines and numbers

What stands in the pieces of a text between separators and in written numbers, and how the first line of
a text is cut off.
-/

namespace AssetBake.Text

variable {α : Type}

/-! ### Pieces -/

theorem mem_intercalate {glue : List α} {parts : List (List α)} {a : α}
    (h : a ∈ glue.intercalate parts) : a ∈ glue ∨ ∃ part ∈ parts, a ∈ part := by
  induction parts with
  | nil => simp at h
  | cons part more ih =>
    cases more with
    | nil => exact .inr ⟨part, List.mem_cons_self, by simpa using h⟩
    | cons next more =>
      rw [List.intercalate_cons_cons, List.mem_append, List.mem_append] at h
      rcases h with (hpart | hglue) | hrest
      · exact .inr ⟨part, List.mem_cons_self, hpart⟩
      · exact .inl hglue
      · rcases ih hrest with hglue | ⟨other, hother, hmem⟩
        · exact .inl hglue
        · exact .inr ⟨other, List.mem_cons_of_mem _ hother, hmem⟩

theorem flatMap_intercalate {β : Type} (f : α → List β) (glue : List α) (parts : List (List α)) :
    (glue.intercalate parts).flatMap f =
      (glue.flatMap f).intercalate (parts.map fun part => part.flatMap f) := by
  induction parts with
  | nil => rfl
  | cons part more ih =>
    cases more with
    | nil => simp
    | cons next more =>
      rw [List.intercalate_cons_cons, List.flatMap_append, List.flatMap_append, ih]
      exact List.intercalate_cons_cons.symm

/-- A separator cuts a sequence apart. -/
theorem splitOn_append_cons [BEq α] [LawfulBEq α] (separator : α) (s rest : List α) :
    (s ++ separator :: rest).splitOn separator = s.splitOn separator ++ rest.splitOn separator :=
  List.splitOnP_append_cons s rest BEq.rfl

theorem notMem_of_mem_splitOn [BEq α] [LawfulBEq α] {separator : α} {s piece : List α}
    (h : piece ∈ s.splitOn separator) : separator ∉ piece := by
  induction s generalizing piece with
  | nil => simp_all
  | cons a rest ih =>
    rw [List.splitOn_cons_eq_if_modifyHead] at h
    split at h
    · rcases List.mem_cons.1 h with rfl | h
      · simp
      · exact ih h
    · next ha =>
      obtain ⟨first, more, hrest⟩ := List.exists_cons_of_ne_nil (List.splitOn_ne_nil separator rest)
      rw [hrest] at h ih
      rcases List.mem_cons.1 h with rfl | h
      · have hfirst : separator ∉ first := ih List.mem_cons_self
        have hne : separator ≠ a := fun heq => ha (beq_iff_eq.2 heq.symm)
        simp [hfirst, hne]
      · exact ih (List.mem_cons_of_mem _ h)

/-! ### Lines -/

theorem newlinePieces_append {line : List Char} (hline : '\n' ∉ line) (rest : List Char) :
    newlinePieces (line ++ '\n' :: rest) = (line ++ ['\n']) :: newlinePieces rest := by
  induction line with
  | nil => simp [newlinePieces]
  | cons c line ih =>
    obtain ⟨hc, hline⟩ := not_or.1 (mt List.mem_cons.2 hline)
    rw [List.cons_append, newlinePieces, if_neg (Ne.symm hc), ih hline]
    rfl

theorem withoutLineEnd_append {line : List Char} (hline : '\r' ∉ line) :
    withoutLineEnd (line ++ ['\n']) = line := by
  rw [withoutLineEnd, List.reverse_append]
  split
  · next rest h =>
    have hreverse : line.reverse = '\r' :: rest := (List.cons.inj h).2
    exact absurd (List.mem_reverse.1 (hreverse ▸ List.mem_cons_self)) hline
  · next rest _ h =>
    have hreverse : line.reverse = rest := (List.cons.inj h).2
    rw [← hreverse, List.reverse_reverse]
  · next h => exact absurd rfl (h line.reverse)

/-- The first line of a text, if the line holds no end of a line. -/
theorem plainLines_append {line : List Char} (hnewline : '\n' ∉ line) (hreturn : '\r' ∉ line)
    (rest : List Char) : plainLines (line ++ '\n' :: rest) = line :: plainLines rest := by
  rw [plainLines, newlinePieces_append hnewline, List.map_cons, withoutLineEnd_append hreturn]
  rfl

theorem newlinePieces_ne_nil {s : List Char} (h : s ≠ []) : newlinePieces s ≠ [] := by
  intro hnil
  have hflatten := flatten_newlinePieces s
  rw [hnil] at hflatten
  exact h hflatten.symm

/-- A text that ends with a newline falls into as many lines as it has newlines. -/
theorem length_newlinePieces {s : List Char} (h : s.getLast? = some '\n') :
    (newlinePieces s).length = s.count '\n' := by
  induction s with
  | nil => cases h
  | cons c s ih =>
    rw [List.count_cons, newlinePieces]
    cases s with
    | nil =>
      obtain rfl : c = '\n' := by simpa using h
      rfl
    | cons d s =>
      rw [List.getLast?_cons_cons] at h
      obtain ⟨line, more, hlines⟩ := List.exists_cons_of_ne_nil
        (newlinePieces_ne_nil (List.cons_ne_nil d s))
      rw [← ih h, hlines]
      by_cases hc : c = '\n'
      · simp [hc]
      · simp [hc]

/-- Where a line ends, the lines of the text do. -/
theorem newlinePieces_append_of_ended {s : List Char} (h : s.getLast? = some '\n')
    (rest : List Char) : newlinePieces (s ++ rest) = newlinePieces s ++ newlinePieces rest := by
  induction s with
  | nil => cases h
  | cons c s ih =>
    rw [List.cons_append, newlinePieces, newlinePieces]
    cases s with
    | nil =>
      obtain rfl : c = '\n' := by simpa using h
      rfl
    | cons d s =>
      rw [List.getLast?_cons_cons] at h
      obtain ⟨line, more, hlines⟩ := List.exists_cons_of_ne_nil
        (newlinePieces_ne_nil (List.cons_ne_nil d s))
      rw [ih h, hlines]
      split
      · rfl
      · rfl

/-! ### Numbers -/

theorem notMem_toDigits {c : Char} (hc : c.isDigit = false) (n : Nat) : c ∉ Nat.toDigits 10 n := by
  intro hmem
  rw [Nat.isDigit_of_mem_toDigits (by decide) (by decide) hmem] at hc
  cases hc

/-- A written number has digits, and nothing else. -/
theorem isEmpty_or_not_all_isDigit (n : Nat) :
    ((Nat.toDigits 10 n).isEmpty || !(Nat.toDigits 10 n).all Char.isDigit) = false := by
  have hdigits : ∀ c ∈ Nat.toDigits 10 n, c.isDigit = true := fun c hc =>
    Nat.isDigit_of_mem_toDigits (by decide) (by decide) hc
  simpa [Nat.toDigits_ne_nil] using hdigits

/-- A written number has no zero in front, unless it is zero. -/
theorem head?_toDigits_ne {n : Nat} (h : n ≠ 0) : (Nat.toDigits 10 n).head? ≠ some '0' := by
  induction n using Nat.strongRecOn with
  | ind n ih =>
    rcases Nat.lt_or_ge n 10 with hlt | hge
    · have hall : ∀ m < 10, m ≠ 0 → Nat.digitChar m ≠ '0' := by decide
      rw [Nat.toDigits_of_lt_base hlt, List.head?_singleton]
      exact fun heq => hall n hlt h (Option.some.inj heq)
    · have hfront := ih (n / 10) (by omega) (by omega)
      rw [Nat.toDigits_of_base_le (by decide) hge, List.head?_append]
      cases hdigits : (Nat.toDigits 10 (n / 10)).head? with
      | none => exact absurd (List.head?_eq_none_iff.1 hdigits) Nat.toDigits_ne_nil
      | some c =>
        rw [hdigits] at hfront
        exact hfront

end AssetBake.Text
