import AssetBake.Config.Warning
import AssetBake.Proofs.Text.Pieces
import AssetBake.Proofs.Text.Trim
import AssetBake.Proofs.Toml.Names

/-!
# First lines of statements

The search for an entry goes by the look of lines. Main statements: where the first line of a
statement looks like the header of a bare name, the statement is the header of the table of that name,
and where it looks like the line of a bare name, the statement gives that name a value.
-/

namespace AssetBake.Config

open Text Toml Toml.Reader

variable {size : Nat} {s rest line x : List Char} {statement : Statement}

/-! ### Lines -/

/-- The characters up to the end of the line. -/
def firstLine (s : List Char) : List Char :=
  s.takeWhile (· ≠ '\n')

theorem exists_firstLine (s : List Char) : ∃ rest, s = firstLine s ++ rest :=
  ⟨s.dropWhile (· ≠ '\n'), List.takeWhile_append_dropWhile.symm⟩

theorem newline_notMem_firstLine (s : List Char) : '\n' ∉ firstLine s := fun h => by
  simpa using List.all_eq_true.1 List.all_takeWhile _ h

theorem firstLine_append (hs : '\n' ∉ s) (rest : List Char) :
    firstLine (s ++ rest) = s ++ firstLine rest := by
  refine List.takeWhile_append_of_pos fun c hc => ?_
  simpa using fun heq : c = '\n' => hs (heq ▸ hc)

theorem firstLine_cons {c : Char} (hc : c ≠ '\n') (s : List Char) :
    firstLine (c :: s) = c :: firstLine s :=
  List.takeWhile_cons_of_pos (by simpa using hc)

theorem firstLine_newline (s : List Char) : firstLine ('\n' :: s) = [] :=
  List.takeWhile_cons_of_neg (by simp)

theorem newlinePieces_of_notMem (hs : '\n' ∉ s) (hne : s ≠ []) : newlinePieces s = [s] := by
  induction s with
  | nil => exact absurd rfl hne
  | cons c s ih =>
    obtain ⟨hc, hs⟩ := not_or.1 (mt List.mem_cons.2 hs)
    rw [newlinePieces, if_neg (Ne.symm hc)]
    cases s with
    | nil => rfl
    | cons d s => rw [ih hs (List.cons_ne_nil d s)]

theorem trim_head_plainLines (h : (plainLines s).head? = some line) :
    trim line = trim (firstLine s) := by
  rw [plainLines, List.head?_map, Option.map_eq_some_iff] at h
  obtain ⟨piece, hpiece, rfl⟩ := h
  rw [trim_withoutLineEnd]
  by_cases hs : '\n' ∈ s
  · obtain ⟨first, rest, rfl, hfirst⟩ := List.eq_append_cons_of_mem hs
    rw [newlinePieces_append hfirst] at hpiece
    cases hpiece
    rw [firstLine_append hfirst, firstLine_newline, List.append_nil,
      trim_append _ (List.all_eq_true.1 (by decide))]
  · have hne : s ≠ [] := by
      rintro rfl
      cases hpiece
    rw [newlinePieces_of_notMem hs hne] at hpiece
    cases hpiece
    rw [← List.append_nil s, firstLine_append hs]
    rfl

/-! ### What the first line shows -/

/-- The first line of a statement begins, behind blanks, where the statement does, or is blank. -/
theorem trim_firstLine (h : statement?.runOn size s = some (some statement, rest)) :
    trim (firstLine s) = [] ∨ ∃ w c more, s = w ++ c :: more ∧ (∀ d ∈ w, isWs d = true) ∧
      isBlank c = false ∧ trim (firstLine s) = c :: trimEnd (firstLine more) ∧
      Says size rest (c :: more) statement := by
  have hw : ∀ d ∈ s.takeWhile isWs, isWs d = true := List.all_eq_true.1 List.all_takeWhile
  have hblank : ∀ d ∈ s.takeWhile isWs, isBlank d = true := fun d hd => isBlank_of_isWs (hw d hd)
  have hnewline : '\n' ∉ s.takeWhile isWs := fun hmem => absurd (hw _ hmem) (by decide)
  have hsays : Says size rest (s.dropWhile isWs) statement := statement?_eq_some h
  obtain ⟨c, more, hbody⟩ : ∃ c more, s.dropWhile isWs = c :: more := by
    generalize s.dropWhile isWs = body at hsays
    cases hsays <;> exact ⟨_, _, rfl⟩
  have hs : s = s.takeWhile isWs ++ c :: more := by
    rw [← hbody, List.takeWhile_append_dropWhile]
  have hc : isWs c = false := by
    have hhead := List.head?_dropWhile_not isWs s
    rw [hbody] at hhead
    simpa using hhead
  have hfirst : firstLine s = s.takeWhile isWs ++ firstLine (c :: more) := by
    rw [← firstLine_append hnewline, ← hs]
  rw [hbody] at hsays
  rcases isBlank_of_says hc hsays with hfull | rfl | ⟨rfl, hmore⟩
  · refine .inr ⟨s.takeWhile isWs, c, more, hs, hw, hfull, ?_, hsays⟩
    have hne : c ≠ '\n' := by
      rintro rfl
      cases hfull
    rw [hfirst, firstLine_cons hne, trim_append_cons hblank hfull]
  · rw [hfirst, firstLine_newline, List.append_nil]
    exact .inl (trim_of_blank hblank)
  · obtain ⟨after, rfl⟩ := List.head?_eq_some_iff.1 hmore
    rw [hfirst, firstLine_cons (by decide), firstLine_newline]
    exact .inl (by rw [trim_append _ (List.all_eq_true.1 (by decide)), trim_of_blank hblank])

theorem headerName?_eq_some {c : Char} (h : headerName? (c :: s) = some x) :
    c = '[' ∧ ∃ inner, s = inner ++ [']'] ∧ trim inner = x := by
  rw [headerName?.eq_def] at h
  split at h
  · next inner heq =>
    cases heq
    split at h
    · next hlast =>
      obtain ⟨inner, rfl⟩ := List.getLast?_eq_some_iff.1 hlast
      rw [List.dropLast_concat] at h
      exact ⟨rfl, inner, rfl, Option.some.inj h⟩
    · cases h
  · cases h

/-- A header that the search sees is that of the table of that name. -/
theorem header_of_headerName? (h : statement?.runOn size s = some (some statement, rest))
    (hname : headerName? (trim (firstLine s)) = some x) (hx : IsBareName x) :
    ∃ before after last span, s = before ++ after ∧ '\n' ∉ before ∧
      statement = .header ⟨[], ⟨x, size - Utf8.byteSize after, last⟩⟩ span := by
  rcases trim_firstLine h with hnil | ⟨w, c, more, rfl, hw, -, htrim, hsays⟩
  · rw [hnil] at hname
    cases hname
  · rw [htrim] at hname
    obtain ⟨rfl, inner, hinner, rfl⟩ := headerName?_eq_some hname
    obtain ⟨blank, hline, hblank⟩ := exists_trimEnd (firstLine more)
    obtain ⟨after, hmore⟩ := exists_firstLine more
    obtain ⟨front, gap, hsplit, hfront, hgap⟩ := exists_trim inner
    have hall : more = front ++ (trim inner ++ (gap ++ ']' :: (blank ++ after))) := by
      calc more = firstLine more ++ after := hmore
        _ = inner ++ [']'] ++ blank ++ after := by rw [← hinner, ← hline]
        _ = front ++ (trim inner ++ gap) ++ [']'] ++ blank ++ after := by rw [← hsplit]
        _ = _ := by simp only [List.append_assoc, List.cons_append, List.nil_append]
    have hnewline : '\n' ∉ w ++ '[' :: front := by
      intro hmem
      rw [List.mem_append, List.mem_cons] at hmem
      rcases hmem with hmem | hbracket | hmem
      · exact absurd (hw _ hmem) (by decide)
      · cases hbracket
      · refine newline_notMem_firstLine more ?_
        rw [hline, hinner, hsplit]
        simp [hmem]
    cases hsays with
    | blank hc => simp at hc
    | header h =>
      rw [hall] at h
      obtain ⟨last, span, hstatement⟩ := headerStatement_eq hfront hx hgap h
      refine ⟨w ++ '[' :: front, _, last, span, ?_, hnewline, hstatement⟩
      rw [hall, List.append_assoc, List.cons_append]
    | value hc hbracket => exact absurd rfl hbracket

/-- A line that the search takes for that of a bare name gives a value to that name. -/
theorem value_of_assigns (h : statement?.runOn size s = some (some statement, rest))
    (hassigns : assigns x (trim (firstLine s)) = true) (hx : IsBareName x) :
    ∃ before after last item, s = before ++ after ∧ '\n' ∉ before ∧ item.Settled ∧
      statement = .value ⟨[], ⟨x, size - Utf8.byteSize after, last⟩⟩ item := by
  obtain ⟨d, name, rfl, hd⟩ := hx.exists_cons
  rw [assigns, Bool.and_eq_true, List.isPrefixOf_iff_prefix, beq_iff_eq] at hassigns
  obtain ⟨⟨tail, htail⟩, hsign⟩ := hassigns
  rcases trim_firstLine h with hnil | ⟨w, c, more, rfl, hw, hc, htrim, hsays⟩
  · rw [hnil] at htail
    cases htail
  · obtain ⟨blank, hline, -⟩ := exists_trimEnd (firstLine more)
    obtain ⟨after, hmore⟩ := exists_firstLine more
    rw [htrim] at htail hsign
    rw [← htail, List.drop_left] at hsign
    obtain ⟨value, hvalue⟩ := List.head?_eq_some_iff.1 hsign
    have hgap : ∀ c ∈ tail.takeWhile isBlank, isBlank c = true :=
      List.all_eq_true.1 List.all_takeWhile
    have hall : c :: more =
        d :: name ++ (tail.takeWhile isBlank ++ '=' :: (value ++ (blank ++ after))) := by
      calc c :: more = c :: trimEnd (firstLine more) ++ blank ++ after := by
            rw [List.cons_append, List.cons_append, ← hline, ← hmore]
        _ = d :: name ++ (tail.takeWhile isBlank ++ '=' :: value) ++ blank ++ after := by
            rw [← htail, ← hvalue, trimStart, List.takeWhile_append_dropWhile]
        _ = _ := by simp only [List.append_assoc, List.cons_append]
    obtain rfl : c = d := (List.cons.inj hall).1
    have hnewline : '\n' ∉ w := fun hmem => absurd (hw _ hmem) (by decide)
    cases hsays with
    | blank hmark => rcases hmark with rfl | rfl | rfl <;> cases hd
    | header => cases hd
    | value _ _ h =>
      rw [hall] at h
      obtain ⟨last, item, hitem, hstatement⟩ := valueStatement_eq hx hgap h
      exact ⟨w, _, last, item, by rw [hall], hnewline, hitem, hstatement⟩

end AssetBake.Config
