import AssetBake.Proofs.Text.Trim

/-!
# Lines with their ends

A text is cut after every newline, after every carriage return and newline, and after every carriage
return that stands alone. In a line a newline is only the last character.
-/

namespace AssetBake.Text

/-- The characters end a line in front of the rest of a text. -/
def EndsLine (ending rest : List Char) : Prop :=
  ending = ['\n'] ∨ ending = ['\r', '\n'] ∨ ending = ['\r'] ∧ rest.head? ≠ some '\n'

/-- The text falls into lines, each with what ends it; the last need not be ended. -/
inductive AreLines : List Char → List (List Char) → Prop
  | nil : AreLines [] []
  | last {body : List Char} (hne : body ≠ []) (hbody : ∀ c ∈ body, c ≠ '\n' ∧ c ≠ '\r') :
      AreLines body [body]
  | ended {body ending rest : List Char} {lines : List (List Char)}
      (hbody : ∀ c ∈ body, c ≠ '\n' ∧ c ≠ '\r') (hending : EndsLine ending rest)
      (hrest : AreLines rest lines) :
      AreLines (body ++ ending ++ rest) ((body ++ ending) :: lines)

variable {s body ending rest line : List Char} {lines : List (List Char)} {c : Char}

theorem AreLines.cons (hc : c ≠ '\n' ∧ c ≠ '\r') (h : AreLines rest (line :: lines)) :
    AreLines (c :: rest) ((c :: line) :: lines) := by
  cases h with
  | last hne hbody => exact .last (List.cons_ne_nil _ _) (List.forall_mem_cons.2 ⟨hc, hbody⟩)
  | ended hbody hending hrest =>
    rw [List.append_assoc, ← List.cons_append, ← List.cons_append, ← List.append_assoc]
    exact .ended (List.forall_mem_cons.2 ⟨hc, hbody⟩) hending hrest

theorem endedLines_cons (hc : c ≠ '\n' ∧ c ≠ '\r') :
    endedLines (c :: rest) =
      match endedLines rest with
      | [] => [[c]]
      | line :: more => (c :: line) :: more := by
  have hend : ¬(c = '\n' || c = '\r') = true := by simpa using hc
  exact (endedLines.eq_3 c rest fun _ hreturn => absurd hreturn hc.2).trans (if_neg hend)

theorem areLines_endedLines (s : List Char) : AreLines s (endedLines s) := by
  fun_induction endedLines s with
  | case1 => exact .nil
  | case2 rest ih => exact AreLines.ended (List.forall_mem_nil _) (.inr (.inl rfl)) ih
  | case3 c rest hno hend ih =>
    change AreLines ([] ++ [c] ++ rest) (([] ++ [c]) :: endedLines rest)
    refine .ended (List.forall_mem_nil _) ?_ ih
    rcases (by simpa using hend : c = '\n' ∨ c = '\r') with rfl | rfl
    · exact .inl rfl
    · refine .inr (.inr ⟨rfl, fun hnext => ?_⟩)
      obtain ⟨more, rfl⟩ := List.head?_eq_some_iff.1 hnext
      exact hno more rfl rfl
  | case4 c rest hno hend hnil ih =>
    rw [hnil] at ih
    cases ih
    exact .last (List.cons_ne_nil _ _) (by simpa using hend)
  | case5 c rest hno hend line more heq ih =>
    rw [heq] at ih
    exact ih.cons (by simpa using hend)

theorem endedLines_ending (hending : EndsLine ending rest) :
    endedLines (ending ++ rest) = ending :: endedLines rest := by
  rcases hending with rfl | rfl | ⟨rfl, hnext⟩
  · rfl
  · rfl
  · rw [List.singleton_append, endedLines]
    · rfl
    · rintro more - rfl
      exact hnext rfl

/-- The lines of a text are determined by it. -/
theorem areLines_iff : AreLines s lines ↔ endedLines s = lines := by
  refine ⟨fun h => ?_, fun h => h ▸ areLines_endedLines s⟩
  induction h with
  | nil => rfl
  | @last body hne hbody =>
    induction body with
    | nil => exact absurd rfl hne
    | cons c body ih =>
      obtain ⟨hc, hbody⟩ := List.forall_mem_cons.1 hbody
      rw [endedLines_cons hc]
      cases body with
      | nil => rfl
      | cons => rw [ih (List.cons_ne_nil _ _) hbody]
  | @ended body ending rest lines hbody hending _ ih =>
    induction body with
    | nil => rw [List.nil_append, endedLines_ending hending, ih]
    | cons c body ihBody =>
      obtain ⟨hc, hbody⟩ := List.forall_mem_cons.1 hbody
      rw [List.cons_append, List.cons_append, endedLines_cons hc, ihBody hbody]

/-! ### The newline of a line -/

/-- A line without the newline that it ends with, if it ends with one. -/
def withoutNewline (line : List Char) : List Char :=
  if line.getLast? = some '\n' then line.dropLast else line

theorem AreLines.newline_is_last (h : AreLines s lines) :
    ∀ line ∈ lines, '\n' ∉ line.dropLast := by
  have hplain {body : List Char} (hbody : ∀ c ∈ body, c ≠ '\n' ∧ c ≠ '\r') : '\n' ∉ body :=
    fun hmem => (hbody _ hmem).1 rfl
  induction h with
  | nil => simp
  | last _ hbody =>
    rw [List.forall_mem_singleton]
    exact fun hmem => hplain hbody (List.dropLast_subset _ hmem)
  | ended hbody hending _ ih =>
    refine List.forall_mem_cons.2 ⟨?_, ih⟩
    rcases hending with rfl | rfl | ⟨rfl, -⟩ <;> simp [hplain hbody]

/-- Dropping every newline at the end of a line drops one. -/
theorem dropEndWhile_newline (h : '\n' ∉ line.dropLast) :
    dropEndWhile (· == '\n') line = withoutNewline line := by
  rw [dropEndWhile_eq_rdropWhile]
  have hkeep {body : List Char} (hbody : '\n' ∉ body) : body.rdropWhile (· == '\n') = body := by
    refine List.rdropWhile_eq_self_iff.2 fun hne hlast => hbody ?_
    rw [← beq_iff_eq.1 hlast]
    exact List.getLast_mem hne
  rcases List.eq_nil_or_concat line with rfl | ⟨body, c, rfl⟩
  · rfl
  · rw [List.concat_eq_append] at h ⊢
    rw [List.dropLast_concat] at h
    rw [List.rdropWhile_concat, withoutNewline, List.getLast?_concat, List.dropLast_concat, hkeep h]
    simp

theorem newline_notMem_withoutNewline (h : '\n' ∉ line.dropLast) : '\n' ∉ withoutNewline line := by
  rw [withoutNewline]
  split
  · exact h
  · next hlast =>
    rcases List.eq_nil_or_concat line with rfl | ⟨body, c, rfl⟩
    · exact List.not_mem_nil
    · rw [List.concat_eq_append] at h hlast ⊢
      rw [List.dropLast_concat] at h
      rw [List.getLast?_concat, Option.some.injEq] at hlast
      simp [h, Ne.symm hlast]

end AssetBake.Text
