import AssetBake.Literal
import AssetBake.Proofs.Fallible
import AssetBake.Proofs.Literal.Reader

/-!
# Written literals read back

What the two ways of writing a text give to a reader: the text itself, whatever stands behind the
literal. A raw literal needs a text without its terminator and a delimiter without parentheses, so
that no occurrence of the terminator can begin in the text and end outside of it.
-/

namespace AssetBake

open Text Reader

/-- The bytes of a text are those of its characters, one after another. -/
theorem Text.Utf8.encode_ofList (s : List Char) :
    Utf8.encode (String.ofList s) = s.flatMap String.utf8EncodeChar := by
  rw [Utf8.encode, String.toUTF8, String.toByteArray_ofList, List.utf8Encode]
  simp

namespace Literal

/-! ### Escaped characters -/

theorem isOctal_digitChar {n : Nat} (h : n < 8) : isOctal (Nat.digitChar n) = true := by
  revert n
  decide

theorem digitValue_digitChar {n : Nat} (h : n < 8) : digitValue (Nat.digitChar n) = n := by
  revert n
  decide

/-- Three octal digits are read as one byte, whatever digits follow. -/
theorem escape?_octal {n : Nat} (h : n < 256) (rest : List Char) :
    escape? (octal n ++ rest) = some (UInt8.ofNat n, rest) := by
  have h1 : n / 64 % 8 < 8 := Nat.mod_lt _ (by decide)
  have h2 : n / 8 % 8 < 8 := Nat.mod_lt _ (by decide)
  have h3 : n % 8 < 8 := Nat.mod_lt _ (by decide)
  have hdigits : ((octal n ++ rest).take 3).takeWhile isOctal = octal n := by
    simp [octal, isOctal_digitChar, h1, h2, h3]
  have hvalue : 8 * (8 * (n / 64 % 8) + n / 8 % 8) + n % 8 = n := by omega
  have hbyte : byteOfDigits? 8 (octal n) = some (UInt8.ofNat n) := by
    simp [byteOfDigits?, octal, digitValue_digitChar, h1, h2, h3, hvalue, h]
  rw [octal, List.cons_append, escape?, if_pos (isOctal_digitChar h1), ← List.cons_append, ← octal]
  simp only [hdigits, hbyte, Option.map_some]
  simp [octal]

theorem quotedBody?_quote (rest : List Char) : quotedBody? ('"' :: rest) = some ([], rest) := by
  rw [quotedBody?]
  simp

theorem quotedBody?_escape {text rest : List Char} {b : UInt8}
    (h : escape? text = some (b, rest)) :
    quotedBody? ('\\' :: text) =
      (quotedBody? rest).map fun (bytes, after) => (b :: bytes, after) := by
  rw [quotedBody?]
  simp only [Char.reduceEq, if_false, if_true]
  split
  · next hnone => simp [h] at hnone
  · next hsome =>
    rw [h] at hsome
    cases hsome
    rfl

theorem quotedBody?_plain {c : Char} (hquote : c ≠ '"') (hline : c ≠ '\n') (hslash : c ≠ '\\')
    (rest : List Char) :
    quotedBody? (c :: rest) =
      (quotedBody? rest).map fun (bytes, after) =>
        (String.utf8EncodeChar c ++ bytes, after) := by
  rw [quotedBody?, if_neg hquote, if_neg hline, if_neg hslash]

theorem utf8EncodeChar_of_isControl {c : Char} (h : isControl c = true) :
    c.toNat < 256 ∧ String.utf8EncodeChar c = [UInt8.ofNat c.toNat] := by
  have hsmall : c.toNat ≤ 0x7f := by
    simp only [isControl, Bool.or_eq_true, decide_eq_true_eq, beq_iff_eq] at h
    omega
  refine ⟨by omega, ?_⟩
  rw [String.utf8EncodeChar]
  exact if_pos hsmall

/-- A character between double quotes is read as its bytes, whatever follows. -/
theorem quotedBody?_escapedChar (afterQuestion : Bool) (c : Char) (rest : List Char) :
    quotedBody? (escapedChar afterQuestion c ++ rest) =
      (quotedBody? rest).map fun (bytes, after) =>
        (String.utf8EncodeChar c ++ bytes, after) := by
  by_cases hslash : c = '\\'
  · subst hslash
    exact quotedBody?_escape rfl
  by_cases hquote : c = '"'
  · subst hquote
    exact quotedBody?_escape rfl
  by_cases hline : c = '\n'
  · subst hline
    exact quotedBody?_escape rfl
  by_cases htab : c = '\t'
  · subst htab
    exact quotedBody?_escape rfl
  by_cases hreturn : c = '\r'
  · subst hreturn
    exact quotedBody?_escape rfl
  simp only [escapedChar, if_neg hslash, if_neg hquote, if_neg hline, if_neg htab, if_neg hreturn]
  split
  · next hquestion =>
    obtain ⟨rfl, _⟩ : c = '?' ∧ afterQuestion = true := by simpa using hquestion
    exact quotedBody?_escape rfl
  · split
    · next hcontrol =>
      obtain ⟨hbyte, hencode⟩ := utf8EncodeChar_of_isControl hcontrol
      rw [hencode]
      exact quotedBody?_escape (escape?_octal hbyte rest)
    · exact quotedBody?_plain hquote hline hslash rest

theorem quotedBody?_escapeAfter (afterQuestion : Bool) (s rest : List Char) :
    quotedBody? (escapeAfter afterQuestion s ++ '"' :: rest) =
      some (s.flatMap String.utf8EncodeChar, rest) := by
  induction s generalizing afterQuestion with
  | nil => exact quotedBody?_quote rest
  | cons c s ih =>
    rw [escapeAfter, List.append_assoc, quotedBody?_escapedChar, ih]
    simp

/-- A text between double quotes reads back, whatever follows. -/
theorem literal?_quoted (s rest : List Char) : literal? (quoted s ++ rest) = some (s, rest) := by
  have hbody := quotedBody?_escapeAfter false s rest
  have hdecode : Utf8.decode? (s.flatMap String.utf8EncodeChar) = some (String.ofList s) := by
    rw [← Utf8.encode_ofList]
    exact Utf8.decode?_encode _
  simp [quoted, escape, literal?, hbody, hdecode]

/-! ### Raw literals -/

theorem occursIn_iff (needle s : List Char) : occursIn needle s = true ↔ needle <:+: s := by
  induction s with
  | nil => simp [occursIn]
  | cons c s ih => simp [occursIn, ih, List.infix_cons_iff]

theorem isDelimiterChar_of_mem {delimiter : List Char} (h : checkDelimiter delimiter = .ok ())
    {c : Char} (hmem : c ∈ delimiter) : isDelimiterChar c = true := by
  rw [checkDelimiter] at h
  split at h
  · simp at h
  · split at h
    · simp at h
    · next hall => exact find?_not_eq_none_iff.1 hall c hmem

theorem parentheses_not_mem {delimiter : List Char} (h : checkDelimiter delimiter = .ok ()) :
    '(' ∉ delimiter ∧ ')' ∉ delimiter :=
  ⟨fun hmem => absurd (isDelimiterChar_of_mem h hmem) (by decide),
    fun hmem => absurd (isDelimiterChar_of_mem h hmem) (by decide)⟩

/-- No terminator begins in a text that holds none, not even one that ends in the terminator behind
the text: that one would have a parenthesis where a delimiter has none. -/
theorem expect?_terminator_eq_none {delimiter tail : List Char} (hparen : ')' ∉ delimiter)
    (hne : tail ≠ []) (hfree : ¬terminator delimiter <:+: tail) (rest : List Char) :
    expect? (terminator delimiter) (tail ++ terminator delimiter ++ rest) = none := by
  rw [Option.eq_none_iff_forall_ne_some]
  intro after hafter
  have hsplit := expect?_eq_some_iff.1 hafter
  rw [List.append_assoc, List.append_eq_append_iff] at hsplit
  rcases hsplit with ⟨back, hback, hrest⟩ | ⟨back, hback, _⟩
  · cases back with
    | nil =>
      rw [List.append_nil] at hback
      exact hfree (hback ▸ List.infix_refl _)
    | cons c back =>
      have hc : c = ')' := by
        have := congrArg List.head? hrest
        simpa [terminator] using this.symm
      obtain ⟨d, tail, rfl⟩ := List.exists_cons_of_ne_nil hne
      have hmem : ')' ∈ delimiter ++ ['"'] := by
        have hbody : delimiter ++ ['"'] = tail ++ c :: back := by
          simpa [terminator] using (List.cons.inj hback).2
        rw [hbody, hc]
        simp
      simp [hparen] at hmem
  · exact hfree ⟨[], back, by simpa using hback.symm⟩

/-- The text of a raw literal ends where its terminator first stands. -/
theorem literal?_raw_eq_cut? {delimiter : List Char} (hopen : '(' ∉ delimiter)
    (content rest : List Char) :
    literal? (raw delimiter content ++ rest) =
      cut? (terminator delimiter) (content ++ terminator delimiter ++ rest) := by
  have hfront := cut?_singleton hopen (content ++ terminator delimiter ++ rest)
  simp only [raw, List.cons_append, List.append_assoc, literal?, rawBody?] at hfront ⊢
  simp only [hfront, Option.bind_eq_bind, Option.bind_some]
  simp only [terminator, List.cons_append]

/-- A raw literal reads back if its text holds no terminator, whatever follows. -/
theorem literal?_raw {delimiter content : List Char} (hdelimiter : checkDelimiter delimiter = .ok ())
    (hfree : occursIn (terminator delimiter) content = false) (rest : List Char) :
    literal? (raw delimiter content ++ rest) = some (content, rest) := by
  obtain ⟨hopen, hclose⟩ := parentheses_not_mem hdelimiter
  have hinfix : ¬terminator delimiter <:+: content := by
    rw [← occursIn_iff, hfree]
    simp
  rw [literal?_raw_eq_cut? hopen]
  exact cut?_append fun tail hne htail =>
    expect?_terminator_eq_none hclose hne (fun h => hinfix (h.trans htail.isInfix)) rest

/-! ### Adjacent literals -/

theorem trimStart_append {blanks : List Char} (h : ∀ c ∈ blanks, isBlank c = true)
    (text : List Char) : trimStart (blanks ++ text) = trimStart text :=
  List.dropWhile_append_of_pos h

theorem trimStart_cons {c : Char} (h : isBlank c = false) (text : List Char) :
    trimStart (c :: text) = c :: text :=
  List.dropWhile_cons_of_neg (by simp [h])

theorem adjacent?_of_stop {text : List Char} (h : beginsLiteral text = false) :
    adjacent? text = some ([], text) := by
  rw [adjacent?]
  simp [h]

theorem adjacent?_of_literal? {text value rest : List Char} (hbegin : beginsLiteral text = true)
    (h : literal? text = some (value, rest)) :
    adjacent? text =
      (adjacent? (trimStart rest)).map fun (more, after) => (value ++ more, after) := by
  rw [adjacent?, if_pos hbegin]
  split
  · next hnone => simp [h] at hnone
  · next hsome =>
    rw [h] at hsome
    cases hsome
    rfl

theorem beginsLiteral_intercalate (glue : List Char) {lines : List (List Char)} (hne : lines ≠ [])
    (rest : List Char) : beginsLiteral (glue.intercalate (lines.map quoted) ++ rest) = true := by
  cases lines with
  | nil => exact absurd rfl hne
  | cons line more => cases more <;> rfl

theorem trimStart_of_beginsLiteral {text : List Char} (h : beginsLiteral text = true) :
    trimStart text = text := by
  fun_cases beginsLiteral text with
  | case1 => exact trimStart_cons (by decide) _
  | case2 => exact trimStart_cons (by decide) _
  | case3 => simp_all [beginsLiteral]

theorem beginsLiteral_of_sequence? {text : List Char} {read : List Char × List Char}
    (h : sequence? text = some read) : beginsLiteral text = true := by
  rw [sequence?] at h
  split at h
  · assumption
  · simp at h

/-- Lines between double quotes, with blanks between each two, read back as one text. -/
theorem adjacent?_intercalate {glue : List Char} (hglue : ∀ c ∈ glue, isBlank c = true)
    {lines : List (List Char)} (hne : lines ≠ []) {rest : List Char}
    (hstop : beginsLiteral (trimStart rest) = false) :
    adjacent? (glue.intercalate (lines.map quoted) ++ rest) =
      some (lines.flatten, trimStart rest) := by
  induction lines with
  | nil => exact absurd rfl hne
  | cons line more ih =>
    have hbegin := beginsLiteral_intercalate glue hne rest
    cases more with
    | nil =>
      rw [List.map_singleton, List.intercalate_singleton] at hbegin ⊢
      rw [adjacent?_of_literal? hbegin (literal?_quoted line rest), adjacent?_of_stop hstop]
      simp
    | cons next more =>
      have hnext := beginsLiteral_intercalate glue (List.cons_ne_nil next more) rest
      have hline := literal?_quoted line
        (glue ++ (glue.intercalate ((next :: more).map quoted) ++ rest))
      rw [List.map_cons, List.map_cons, List.intercalate_cons_cons, ← List.map_cons] at hbegin ⊢
      simp only [List.append_assoc] at hbegin ⊢
      rw [adjacent?_of_literal? hbegin hline, trimStart_append hglue,
        trimStart_of_beginsLiteral hnext, ih (by simp)]
      simp

/-- The lines of an escaped text; the empty text has one empty line. -/
theorem escaped_eq_intercalate (indent content : List Char) :
    ∃ lines : List (List Char), lines ≠ [] ∧ lines.flatten = content ∧
      escaped indent content = ('\n' :: indent).intercalate (lines.map quoted) := by
  have hflat := flatten_newlinePieces content
  rw [escaped]
  split
  · next hnil =>
    rw [hnil] at hflat
    exact ⟨[[]], by simp, by simpa using hflat, rfl⟩
  · next hcons => exact ⟨newlinePieces content, hcons, hflat, rfl⟩

/-- An escaped text reads back, if nothing that could be a literal follows. -/
theorem sequence?_escaped {indent : List Char} (hindent : ∀ c ∈ indent, isBlank c = true)
    (content : List Char) {rest : List Char} (hstop : beginsLiteral (trimStart rest) = false) :
    sequence? (escaped indent content ++ rest) = some (content, trimStart rest) := by
  obtain ⟨lines, hne, hflat, hlines⟩ := escaped_eq_intercalate indent content
  have hglue : ∀ c ∈ '\n' :: indent, isBlank c = true :=
    List.forall_mem_cons.2 ⟨by decide, hindent⟩
  rw [hlines, sequence?, if_pos (beginsLiteral_intercalate _ hne rest),
    adjacent?_intercalate hglue hne hstop, hflat]

/-- A text between double quotes reads back, if nothing that could be a literal follows. -/
theorem sequence?_quoted (s : List Char) {rest : List Char}
    (hstop : beginsLiteral (trimStart rest) = false) :
    sequence? (quoted s ++ rest) = some (s, trimStart rest) := by
  have hbegin : beginsLiteral (quoted s ++ rest) = true := rfl
  rw [sequence?, if_pos hbegin, adjacent?_of_literal? hbegin (literal?_quoted s rest),
    adjacent?_of_stop hstop]
  simp

/-- A raw text without its terminator reads back, if nothing that could be a literal follows. -/
theorem sequence?_raw {delimiter content : List Char} (hdelimiter : checkDelimiter delimiter = .ok ())
    (hfree : occursIn (terminator delimiter) content = false) {rest : List Char}
    (hstop : beginsLiteral (trimStart rest) = false) :
    sequence? (raw delimiter content ++ rest) = some (content, trimStart rest) := by
  have hbegin : beginsLiteral (raw delimiter content ++ rest) = true := rfl
  rw [sequence?, if_pos hbegin,
    adjacent?_of_literal? hbegin (literal?_raw hdelimiter hfree rest), adjacent?_of_stop hstop]
  simp

end Literal

namespace LiteralStyle

open Literal

theorem check_eq_ok_iff (style : LiteralStyle) (content : List Char) :
    style.check content = .ok () ↔
      '\x00' ∉ content ∧ (style.strategy = .raw →
        '\r' ∉ content ∧ occursIn (terminator style.delimiter) content = false) := by
  rw [check]
  cases style.strategy <;> grind

theorem render_eq_ok_iff (style : LiteralStyle) (indent content literal : List Char) :
    style.render indent content = .ok literal ↔
      style.check content = .ok () ∧ literal = match style.strategy with
        | .raw => raw style.delimiter content
        | .escaped => escaped indent content := by
  rw [render]
  cases style.check content with
  | error fault => simp
  | ok => cases style.strategy <;> simp [eq_comm]

theorem render_eq_error_iff {style : LiteralStyle} {indent content : List Char}
    {fault : ContentFault} :
    style.render indent content = .error fault ↔ style.check content = .error fault := by
  rw [render]
  cases style.check content with
  | error fault => simp
  | ok => cases style.strategy <;> simp

/-- Whatever is written as a literal reads back, if nothing that could be a literal follows. -/
theorem sequence?_render {style : LiteralStyle} {indent content literal rest : List Char}
    (hdelimiter : checkDelimiter style.delimiter = .ok ())
    (hindent : ∀ c ∈ indent, isBlank c = true)
    (hrender : style.render indent content = .ok literal)
    (hstop : beginsLiteral (trimStart rest) = false) :
    sequence? (literal ++ rest) = some (content, trimStart rest) := by
  obtain ⟨hcheck, hliteral⟩ := (render_eq_ok_iff ..).1 hrender
  have hcontent := (check_eq_ok_iff ..).1 hcheck
  cases hstrategy : style.strategy with
  | raw =>
    rw [hliteral, hstrategy]
    exact sequence?_raw hdelimiter (hcontent.2 hstrategy).2 hstop
  | escaped =>
    rw [hliteral, hstrategy]
    exact sequence?_escaped hindent content hstop

end LiteralStyle

end AssetBake
