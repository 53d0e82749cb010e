import AssetBake.Proofs.Text.Trim
import AssetBake.Proofs.Toml.Parts

/-!
# Names without quotation marks

A name of letters, digits, hyphens and underscores can be written as it is. Main statements: what a
header and a line with a value say when such a name stands in them alone, between blanks, and at which
byte the name begins.
-/

namespace AssetBake.Toml

open Text Toml.Reader

/-- The name can be written without quotation marks. -/
def IsBareName (name : List Char) : Prop :=
  name ≠ [] ∧ ∀ c ∈ name, isBareKeyChar c = true

/-! ### Characters -/

theorem isBlank_of_isWs {c : Char} (h : isWs c = true) : isBlank c = true := by
  rw [isWs, Bool.or_eq_true, beq_iff_eq, beq_iff_eq] at h
  rcases h with rfl | rfl <;> rfl

theorem isBlank_of_isBareKeyChar {c : Char} (h : isBareKeyChar c = true) : isBlank c = false := by
  rw [isBareKeyChar, Bool.or_eq_true, Bool.or_eq_true, beq_iff_eq, beq_iff_eq] at h
  rcases h with (h | rfl) | rfl
  · exact isBlank_of_isAlphanum h
  · rfl
  · rfl

theorem isBareKeyChar_of_isBlank {c : Char} (h : isBlank c = true) : isBareKeyChar c = false :=
  Bool.eq_false_iff.2 fun hbare => by simp [isBlank_of_isBareKeyChar hbare] at h

theorem isWs_of_isBlank {c : Char} (h : isBlank c = false) : isWs c = false :=
  Bool.eq_false_iff.2 fun hws => by simp [isBlank_of_isWs hws] at h

theorem IsBareName.exists_cons {name : List Char} (h : IsBareName name) :
    ∃ c rest, name = c :: rest ∧ isBareKeyChar c = true := by
  obtain ⟨c, rest, rfl⟩ := List.exists_cons_of_ne_nil h.1
  exact ⟨c, rest, rfl, h.2 c List.mem_cons_self⟩

/-! ### Names -/

variable {size : Nat} {b x y gap z rest : List Char} {d : Char} {key : Key} {name : DottedKey}
  {statement : Statement}

theorem runOn_simpleKey (hx : IsBareName x) (hy : ∀ c ∈ y.head?, isBareKeyChar c = false) :
    simpleKey.runOn size (x ++ y) =
      some (⟨x, size - Utf8.byteSize (x ++ y), size - Utf8.byteSize y⟩, y) := by
  obtain ⟨c, more, hcons, hc⟩ := hx.exists_cons
  have hstop : y.takeWhile isBareKeyChar = [] ∧ y.dropWhile isBareKeyChar = y := by
    cases y with
    | nil => exact ⟨rfl, rfl⟩
    | cons d y =>
      have hd := hy d rfl
      exact ⟨List.takeWhile_cons_of_neg (by simp [hd]), List.dropWhile_cons_of_neg (by simp [hd])⟩
  have htake : (x ++ y).takeWhile isBareKeyChar = x := by
    rw [List.takeWhile_append_of_pos hx.2, hstop.1, List.append_nil]
  have hdrop : (x ++ y).dropWhile isBareKeyChar = y := by
    rw [List.dropWhile_append_of_pos hx.2, hstop.2]
  rw [simpleKey, runOn_bind, runOn_here, Option.bind_some, runOn_bind, runOn_readWith]
  dsimp only
  split
  · next heq =>
    rw [hcons, List.cons_append, List.cons.injEq] at heq
    exact absurd (heq.1 ▸ hc) (by decide)
  · next heq =>
    rw [hcons, List.cons_append, List.cons.injEq] at heq
    exact absurd (heq.1 ▸ hc) (by decide)
  · rw [htake, hdrop, if_neg (by simp [hcons])]
    rfl

theorem runOn_simpleKey_blank (hd : isBlank d = true) :
    simpleKey.runOn size (d :: z) = none := by
  have hbare := isBareKeyChar_of_isBlank hd
  rw [simpleKey, runOn_bind, runOn_here, Option.bind_some, runOn_bind, runOn_readWith]
  dsimp only
  split
  · next heq =>
    cases heq
    cases hd
  · next heq =>
    cases heq
    cases hd
  · rw [List.takeWhile_cons_of_neg (by simp [hbare])]
    rfl

/-- Dropping blanks leaves the other characters, and in front of them at most other blanks. -/
theorem dropWhile_isWs (hgap : ∀ c ∈ gap, isBlank c = true) (hd : isWs d = false) (z : List Char) :
    (gap ++ d :: z).dropWhile isWs = d :: z ∨
      ∃ e more, (gap ++ d :: z).dropWhile isWs = e :: more ∧ isBlank e = true := by
  induction gap with
  | nil => exact .inl (List.dropWhile_cons_of_neg (by simp [hd]))
  | cons e gap ih =>
    obtain ⟨he, hgap⟩ := List.forall_mem_cons.1 hgap
    rw [List.cons_append, List.dropWhile_cons]
    split
    · exact ih hgap
    · exact .inr ⟨e, _, rfl, he⟩

/-- A name that stands alone between blanks is read as it is. -/
theorem dottedKey_eq (hb : ∀ c ∈ b, isBlank c = true) (hx : IsBareName x)
    (hgap : ∀ c ∈ gap, isBlank c = true) (hd : isBareKeyChar d = false) (hblank : isBlank d = false)
    (hdot : d ≠ '.')
    (h : dottedKey.runOn size (b ++ (x ++ (gap ++ d :: z))) = some (name, rest)) :
    ∃ last, name = ⟨[], ⟨x, size - Utf8.byteSize (x ++ (gap ++ d :: z)), last⟩⟩ := by
  obtain ⟨c, more, rfl, hc⟩ := hx.exists_cons
  rw [dottedKey, runOn_bind] at h
  obtain ⟨⟨keys, mid⟩, hkeys, h⟩ := Option.bind_eq_some_iff.1 h
  rw [maxKeyLength, keyParts, runOn_bind, runOn_skipWs, Option.bind_some, List.cons_append] at hkeys
  rcases dropWhile_isWs hb (isWs_of_isBlank (isBlank_of_isBareKeyChar hc)) (more ++ (gap ++ d :: z)) with
    hfront | ⟨e, after, hfront, he⟩
  · -- Nothing but spaces and tabs stands in front of the name.
    have hend : ∀ e ∈ (gap ++ d :: z).head?, isBareKeyChar e = false := by
      cases gap with
      | nil =>
        rintro _ ⟨⟩
        exact hd
      | cons e gap =>
        rintro _ ⟨⟩
        exact isBareKeyChar_of_isBlank (hgap e List.mem_cons_self)
    rw [hfront, ← List.cons_append, runOn_bind, runOn_simpleKey hx hend, Option.bind_some, runOn_bind,
      runOn_skipWs, Option.bind_some, runOn_bind, runOn_accept] at hkeys
    have hnot : afterChar? '.' ((gap ++ d :: z).dropWhile isWs) = none := by
      rcases dropWhile_isWs hgap (isWs_of_isBlank hblank) z with hz | ⟨e, after, hz, he⟩
      · rw [hz, afterChar?, if_neg hdot.symm]
      · rw [hz, afterChar?, if_neg]
        rintro rfl
        cases he
    simp only [hnot] at hkeys
    cases hkeys
    cases h
    exact ⟨_, rfl⟩
  · -- Another blank stands there, and no name begins with one.
    rw [hfront, runOn_bind, runOn_simpleKey_blank he] at hkeys
    cases hkeys

/-! ### Statements -/

theorem reads_endLine : Reads (fun _ => True) endLine := by
  intro size s a rest h
  obtain ⟨front, rfl, -⟩ := readsLine_endLine size s a rest h
  exact ⟨List.suffix_append .., trivial⟩

/-- What a line with a value says from behind the name on. -/
theorem reads_value_of_name (name : DottedKey) :
    Reads (fun statement => ∃ item, item.Settled ∧ statement = .value name item) (do
      expect '='
      skipWs
      let item ← value maxDepth
      endLine
      return Statement.value name item) :=
  (reads_expect '=').bind fun _ _ => reads_skipWs.bind fun _ _ => (reads_value maxDepth).bind
    fun item hitem => reads_endLine.bind fun _ _ => .pure ⟨item, hitem, rfl⟩

/-- What a header says from behind the name on. -/
theorem reads_header_of_name (first : Nat) (name : DottedKey) :
    Reads (fun statement => ∃ span, statement = .header name span) (do
      expect ']'
      let span ← since first
      endLine
      return Statement.header name span) :=
  (reads_expect ']').bind fun _ _ => (reads_since first).bind fun span _ =>
    reads_endLine.bind fun _ _ => .pure ⟨span, rfl⟩

/-- No line with a value begins with a blank that is neither a space nor a tab. -/
theorem isBlank_of_valueStatement (hws : isWs d = false)
    (h : valueStatement.runOn size (d :: z) = some (statement, rest)) : isBlank d = false := by
  refine Bool.eq_false_iff.2 fun hblank => ?_
  have hskip : (d :: z).dropWhile isWs = d :: z := List.dropWhile_cons_of_neg (by simp [hws])
  have hkey : dottedKey.runOn size (d :: z) = none := by
    rw [dottedKey, runOn_bind, maxKeyLength, keyParts, runOn_bind, runOn_skipWs, Option.bind_some,
      hskip, runOn_bind, runOn_simpleKey_blank hblank]
    rfl
  rw [valueStatement, runOn_bind, hkey] at h
  cases h

/-- A statement begins with a blank only where it is an empty line. -/
theorem isBlank_of_says (hws : isWs d = false) (h : Says size rest (d :: z) statement) :
    isBlank d = false ∨ d = '\n' ∨ d = '\x0d' ∧ z.head? = some '\n' := by
  cases h with
  | blank hd h =>
    rcases hd with rfl | rfl | rfl
    · exact .inl rfl
    · exact .inr (.inl rfl)
    · refine .inr (.inr ⟨rfl, ?_⟩)
      rw [endLine, runOn_bind, runOn_skipWs, Option.bind_some, runOn_bind, runOn_modify,
        Option.bind_some, runOn_bind, runOn_get, Option.bind_some,
        List.dropWhile_cons_of_neg (by decide)] at h
      simp only [afterComment] at h
      split at h
      · next heq => cases heq
      · next heq => cases heq
      · next heq =>
        cases heq
        rfl
      · cases h
  | header => exact .inl rfl
  | value _ _ h => exact .inl (isBlank_of_valueStatement hws h)

/-- A line that begins with a bare name and an equals sign gives that name a value. -/
theorem valueStatement_eq (hx : IsBareName x) (hgap : ∀ c ∈ gap, isBlank c = true)
    (h : valueStatement.runOn size (x ++ (gap ++ '=' :: z)) = some (statement, rest)) :
    ∃ last item, item.Settled ∧ statement =
      .value ⟨[], ⟨x, size - Utf8.byteSize (x ++ (gap ++ '=' :: z)), last⟩⟩ item := by
  rw [valueStatement, runOn_bind] at h
  obtain ⟨⟨name, mid⟩, hname, h⟩ := Option.bind_eq_some_iff.1 h
  obtain ⟨last, rfl⟩ := dottedKey_eq (b := []) (List.forall_mem_nil _) hx hgap rfl rfl (by decide) hname
  exact ⟨last, ((reads_value_of_name _) _ _ _ _ h).2⟩

/-- A header between single brackets with a bare name in it is the header of the table of that name. -/
theorem headerStatement_eq (hb : ∀ c ∈ b, isBlank c = true) (hx : IsBareName x)
    (hgap : ∀ c ∈ gap, isBlank c = true)
    (h : headerStatement.runOn size ('[' :: (b ++ (x ++ (gap ++ ']' :: z)))) = some (statement, rest)) :
    ∃ last span, statement =
      .header ⟨[], ⟨x, size - Utf8.byteSize (x ++ (gap ++ ']' :: z)), last⟩⟩ span := by
  have hsingle : afterChar? '[' (b ++ (x ++ (gap ++ ']' :: z))) = none := by
    cases b with
    | nil =>
      obtain ⟨c, more, rfl, hc⟩ := hx.exists_cons
      rw [List.nil_append, List.cons_append, afterChar?, if_neg]
      rintro rfl
      cases hc
    | cons e b =>
      have he := hb e List.mem_cons_self
      rw [List.cons_append, afterChar?, if_neg]
      rintro rfl
      cases he
  rw [headerStatement, runOn_bind, runOn_here, Option.bind_some, runOn_bind, runOn_expect, afterChar?,
    if_pos rfl, Option.map_some, Option.bind_some, runOn_bind, runOn_accept] at h
  simp only [hsingle, Option.bind_some] at h
  rw [if_neg Bool.false_ne_true, runOn_bind] at h
  obtain ⟨⟨name, mid⟩, hname, h⟩ := Option.bind_eq_some_iff.1 h
  obtain ⟨last, rfl⟩ := dottedKey_eq hb hx hgap rfl rfl (by decide) hname
  exact ⟨last, ((reads_header_of_name _ _) _ _ _ _ h).2⟩

end AssetBake.Toml
