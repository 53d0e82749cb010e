import AssetBake.Proofs.Literal.ReadBack

/-!
# Raw literals that read back

A raw literal gives its text back just if the check accepts the text. One with a terminator in its text
ends early, and whatever its reader makes of the rest is too short for what is missing, since a literal
gives fewer bytes than it takes.
-/

namespace AssetBake

open Text

theorem Text.Utf8.length_encode (text : String) :
    (Utf8.encode text).length = Utf8.byteSize text.toList := by
  rw [← @String.ofList_toList text, encode_ofList, String.toList_ofList]
  induction text.toList with
  | nil => rfl
  | cons c s ih => simp [byteSize_cons, ih]

namespace Reader

open Utf8

variable {text value rest : List Char}

/-! ### Literals give fewer bytes than they take -/

theorem suffix_of_escape? {b : UInt8} (h : escape? text = some (b, rest)) : rest <:+ text := by
  cases text with
  | nil => simp [escape?] at h
  | cons c text =>
    simp only [escape?] at h
    split at h
    · obtain ⟨_, _, heq⟩ := Option.map_eq_some_iff.1 h
      cases heq
      exact List.drop_suffix _ _
    · split at h
      · obtain ⟨_, _, heq⟩ := Option.map_eq_some_iff.1 h
        cases heq
        exact (List.drop_suffix _ _).trans (List.suffix_cons _ _)
      · obtain ⟨_, _, heq⟩ := Option.map_eq_some_iff.1 h
        cases heq
        exact List.suffix_cons _ _

theorem byteSize_quotedBody? {bytes : List UInt8} (h : quotedBody? text = some (bytes, rest)) :
    bytes.length + byteSize rest < byteSize text := by
  fun_induction quotedBody? text generalizing bytes with
  | case1 => simp at h
  | case2 text =>
    cases h
    have hquote : '"'.utf8Size = 1 := rfl
    rw [List.length_nil, byteSize_cons]
    omega
  | case3 => simp at h
  | case4 => simp at h
  | case5 text b after hescape hlt _ _ ih =>
    obtain ⟨⟨more, last⟩, hbody, heq⟩ := Option.map_eq_some_iff.1 h
    cases heq
    have hmore := ih hbody
    have hafter := byteSize_lt_of_suffix (suffix_of_escape? hescape) hlt
    rw [List.length_cons, byteSize_cons]
    omega
  | case6 c text _ _ _ ih =>
    obtain ⟨⟨more, last⟩, hbody, heq⟩ := Option.map_eq_some_iff.1 h
    cases heq
    have hmore := ih hbody
    rw [List.length_append, String.length_utf8EncodeChar, byteSize_cons]
    omega

theorem eq_of_cut? {token front : List Char} (h : cut? token text = some (front, rest)) :
    text = front ++ token ++ rest := by
  induction text generalizing front with
  | nil =>
    obtain ⟨after, hafter, heq⟩ := Option.map_eq_some_iff.1 h
    cases heq
    exact expect?_eq_some_iff.1 hafter
  | cons c text ih =>
    rw [cut?] at h
    split at h
    · next after hafter =>
      cases h
      exact expect?_eq_some_iff.1 hafter
    · obtain ⟨⟨front', rest'⟩, hcut, heq⟩ := Option.map_eq_some_iff.1 h
      cases heq
      exact congrArg (c :: ·) (ih hcut)

theorem byteSize_literal? (h : literal? text = some (value, rest)) :
    byteSize value + byteSize rest < byteSize text := by
  fun_cases literal? text with
  | case1 text =>
    simp only [literal?, rawBody?, Option.bind_eq_bind, Option.bind_eq_some_iff] at h
    obtain ⟨⟨delimiter, body⟩, hopen, hclose⟩ := h
    have hbody : body = value ++ (')' :: delimiter ++ ['"']) ++ rest := eq_of_cut? hclose
    rw [eq_of_cut? hopen, hbody]
    have hmark : 'R'.utf8Size = 1 := rfl
    simp only [byteSize_cons, byteSize_append]
    omega
  | case2 text =>
    simp only [literal?, Option.bind_eq_some_iff] at h
    obtain ⟨⟨bytes, last⟩, hbody, hdecode⟩ := h
    obtain ⟨string, hstring, heq⟩ := Option.map_eq_some_iff.1 hdecode
    cases heq
    have hsize := byteSize_quotedBody? hbody
    rw [← length_encode, encode_of_decode? hstring, byteSize_cons]
    exact Nat.lt_add_left _ hsize
  | case3 => simp_all [literal?]

/-- Adjacent literals give fewer bytes than there are, unless there is none of them. -/
theorem byteSize_adjacent? (h : adjacent? text = some (value, rest)) :
    value = [] ∨ byteSize value < byteSize text := by
  fun_induction adjacent? text generalizing value with
  | case1 => simp at h
  | case2 text _ first after hliteral hlt ih =>
    obtain ⟨⟨more, last⟩, hmore, heq⟩ := Option.map_eq_some_iff.1 h
    cases heq
    have hfirst := byteSize_literal? hliteral
    have htrim : byteSize (trimStart after) ≤ byteSize after :=
      byteSize_le_of_suffix (List.dropWhile_suffix _)
    rw [byteSize_append]
    right
    rcases ih hmore with rfl | hsize
    · exact Nat.lt_of_le_of_lt (Nat.add_le_add_left (Nat.zero_le _) _) hfirst
    · omega
  | case3 =>
    cases h
    exact .inl rfl

/-! ### The first terminator -/

theorem exists_cut?_of_infix {token : List Char} (h : token <:+: text) :
    ∃ front rest, cut? token text = some (front, rest) := by
  induction text with
  | nil =>
    rw [List.infix_nil.1 h]
    exact ⟨[], [], rfl⟩
  | cons c text ih =>
    rw [cut?]
    split
    · next rest _ => exact ⟨[], rest, rfl⟩
    · next hnone =>
      rcases List.infix_cons_iff.1 h with ⟨rest, hstart⟩ | hlater
      · rw [expect?_eq_some_iff.2 hstart.symm] at hnone
        simp at hnone
      · obtain ⟨front, rest, hcut⟩ := ih hlater
        exact ⟨c :: front, rest, by rw [hcut]; rfl⟩

/-- A token found in a text is found at the same place when more follows: the text is long enough for
all of a token that would begin earlier, which would then have been found. -/
theorem cut?_append_right {token front : List Char} (h : cut? token text = some (front, rest))
    (more : List Char) : cut? token (text ++ more) = some (front, rest ++ more) := by
  induction text generalizing front with
  | nil =>
    obtain ⟨after, hafter, heq⟩ := Option.map_eq_some_iff.1 h
    cases heq
    obtain ⟨rfl, rfl⟩ := List.append_eq_nil_iff.1 (expect?_eq_some_iff.1 hafter).symm
    cases more <;> rfl
  | cons c text ih =>
    rw [cut?] at h
    rw [List.cons_append, cut?]
    cases hexpect : expect? token (c :: text) with
    | some after =>
      simp only [hexpect] at h
      cases h
      have hmore : expect? token (c :: (text ++ more)) = some (rest ++ more) := by
        rw [expect?_eq_some_iff, ← List.cons_append, expect?_eq_some_iff.1 hexpect,
          List.append_assoc]
      rw [hmore]
    | none =>
      simp only [hexpect] at h
      obtain ⟨⟨front', rest'⟩, hcut, heq⟩ := Option.map_eq_some_iff.1 h
      cases heq
      have hlength : token.length ≤ (c :: text).length := by
        rw [eq_of_cut? hcut]
        simp only [List.length_cons, List.length_append]
        omega
      have hmore : expect? token (c :: (text ++ more)) = none := by
        rw [Option.eq_none_iff_forall_ne_some]
        intro after hafter
        have hstart : token <+: c :: text ++ more := ⟨after, (expect?_eq_some_iff.1 hafter).symm⟩
        obtain ⟨back, hback⟩ :=
          List.prefix_of_prefix_length_le hstart (List.prefix_append _ _) hlength
        rw [expect?_eq_some_iff.2 hback.symm] at hexpect
        cases hexpect
      simp only [hmore, ih hcut, Option.map_some]

end Reader

namespace Literal

open Reader Utf8

variable {delimiter content : List Char}

/-- A text with the terminator does not read back: its literal ends early, and too few bytes are left
to give the rest of it. -/
theorem sequence?_raw_ne (hdelimiter : checkDelimiter delimiter = .ok ())
    (hoccurs : occursIn (terminator delimiter) content = true) (rest : List Char) :
    sequence? (raw delimiter content) ≠ some (content, rest) := by
  obtain ⟨front, back, hcut⟩ := exists_cut?_of_infix ((occursIn_iff ..).1 hoccurs)
  have hliteral : literal? (raw delimiter content) =
      some (front, back ++ terminator delimiter) := by
    have hraw := literal?_raw_eq_cut? (parentheses_not_mem hdelimiter).1 content []
    rwa [List.append_nil, List.append_nil, cut?_append_right hcut] at hraw
  have hbegin : beginsLiteral (raw delimiter content) = true := rfl
  rw [sequence?, if_pos hbegin, adjacent?_of_literal? hbegin hliteral]
  intro hread
  obtain ⟨⟨more, after⟩, hmore, heq⟩ := Option.map_eq_some_iff.1 hread
  have hmissing : more = terminator delimiter ++ back := by
    have hcontent : front ++ more = front ++ terminator delimiter ++ back :=
      (congrArg Prod.fst heq).trans (eq_of_cut? hcut)
    rwa [List.append_assoc, List.append_cancel_left_eq] at hcontent
  rcases byteSize_adjacent? hmore with hnil | hsize
  · rw [hmissing] at hnil
    simp [terminator] at hnil
  · have htrim : byteSize (trimStart (back ++ terminator delimiter)) ≤
        byteSize (back ++ terminator delimiter) := byteSize_le_of_suffix (List.dropWhile_suffix _)
    rw [hmissing, byteSize_append] at hsize
    rw [byteSize_append] at htrim
    omega

/-- The check of raw literals accepts just the texts that read back, and such a text is read whole
whatever follows its literal. -/
theorem check_raw_iff_reads_back (hdelimiter : checkDelimiter delimiter = .ok ())
    (hnul : '\x00' ∉ content) (hreturn : '\r' ∉ content) :
    (LiteralStyle.check ⟨.raw, delimiter⟩ content = .ok () ↔
      sequence? (raw delimiter content) = some (content, [])) ∧
    (LiteralStyle.check ⟨.raw, delimiter⟩ content = .ok () ↔
      ∃ rest, sequence? (raw delimiter content) = some (content, rest)) ∧
    (LiteralStyle.check ⟨.raw, delimiter⟩ content = .ok () →
      ∀ rest, literal? (raw delimiter content ++ rest) = some (content, rest)) := by
  have hcheck : LiteralStyle.check ⟨.raw, delimiter⟩ content = .ok () ↔
      occursIn (terminator delimiter) content = false := by
    rw [LiteralStyle.check_eq_ok_iff]
    simp [hnul, hreturn]
  have haccepted (hfree : occursIn (terminator delimiter) content = false) :
      sequence? (raw delimiter content) = some (content, []) := by
    have hstop : beginsLiteral (trimStart []) = false := rfl
    have hread := sequence?_raw hdelimiter hfree hstop
    rwa [List.append_nil] at hread
  have hrefused {rest : List Char} (hread : sequence? (raw delimiter content) = some (content, rest)) :
      occursIn (terminator delimiter) content = false := by
    rw [← Bool.not_eq_true]
    exact fun hoccurs => sequence?_raw_ne hdelimiter hoccurs rest hread
  rw [hcheck]
  refine ⟨⟨haccepted, hrefused⟩, ⟨fun hfree => ⟨[], haccepted hfree⟩, ?_⟩, literal?_raw hdelimiter⟩
  rintro ⟨rest, hread⟩
  exact hrefused hread

/-- A text whose literal falls apart into two is refused. -/
theorem check_raw_iff_reads_back_two_literals :
    checkDelimiter ['x'] = .ok () ∧ '\x00' ∉ "a)x\" R\"x(b".toList ∧
    '\r' ∉ "a)x\" R\"x(b".toList ∧
    LiteralStyle.check ⟨.raw, ['x']⟩ "a)x\" R\"x(b".toList ≠ .ok () ∧
    ∀ rest, sequence? (raw ['x'] "a)x\" R\"x(b".toList) ≠ some ("a)x\" R\"x(b".toList, rest) := by
  have hdelimiter : checkDelimiter ['x'] = .ok () := rfl
  have hnul : '\x00' ∉ "a)x\" R\"x(b".toList := by decide
  have hreturn : '\r' ∉ "a)x\" R\"x(b".toList := by decide
  have hcheck : LiteralStyle.check ⟨.raw, ['x']⟩ "a)x\" R\"x(b".toList ≠ .ok () := nofun
  have hreads := (check_raw_iff_reads_back hdelimiter hnul hreturn).2.1
  exact ⟨hdelimiter, hnul, hreturn, hcheck, fun rest hread => hcheck (hreads.2 ⟨rest, hread⟩)⟩

end Literal

end AssetBake
