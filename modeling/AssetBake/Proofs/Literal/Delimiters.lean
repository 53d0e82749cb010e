import AssetBake.Proofs.Config.Validation
import AssetBake.Proofs.Literal.ReadBack
import AssetBake.Proofs.Text.Trim

/-!
# Delimiters of the language

What the language allows between the quote and the parenthesis that open a raw literal. A delimiter is
accepted if it is such a sequence without a quote; three signs outside the basic source character set
are accepted as well, and a literal with one of them is no token.
-/

namespace AssetBake

open Text Literal Reader

namespace Literal

/-! ### The characters of a delimiter -/

def basicSigns : List Char :=
  "_\x7b\x7d[]#<>%:;().?*+-/^&|~!=,\\\"'".toList

def basicBlanks : List Char :=
  [' ', '\t', '\x0b', '\x0c', '\n']

def isBasicChar (c : Char) : Bool :=
  c.isAlphanum || basicSigns.contains c || basicBlanks.contains c

/-- The characters that the language allows in a delimiter. -/
def isDelimiterMember (c : Char) : Bool :=
  isBasicChar c && !basicBlanks.contains c && c != '(' && c != ')' && c != '\\'

/-- Whether the language allows the sequence as a delimiter. -/
def isDelimiterSequence (d : List Char) : Bool :=
  d.length ≤ 16 && d.all isDelimiterMember

/-- The visible characters of ASCII outside the basic source character set. -/
def foreignSigns : List Char :=
  ['$', '@', '\x60']

theorem toNat_lt_of_isDelimiterChar {c : Char} (h : isDelimiterChar c = true) : c.toNat < 128 := by
  simp only [isDelimiterChar, isGraphic, Bool.and_eq_true, decide_eq_true_eq] at h
  have hlast : c.toNat ≤ '~'.toNat := h.1.1.1.1.2
  exact Nat.lt_of_le_of_lt hlast (by decide)

theorem toNat_lt_of_isDelimiterMember {c : Char} (h : isDelimiterMember c = true) :
    c.toNat < 128 := by
  simp only [isDelimiterMember, isBasicChar, Bool.and_eq_true, Bool.or_eq_true,
    List.contains_iff_mem] at h
  have hsigns : ∀ d ∈ basicSigns ++ basicBlanks, d.toNat < 128 := by
    have hall : (basicSigns ++ basicBlanks).all fun d => d.toNat < 128 := by decide
    simpa using List.all_eq_true.1 hall
  rcases h.1.1.1.1 with (hletter | hsign) | hblank
  · exact Nat.lt_of_le_of_lt (range_of_isAlphanum hletter).2 (by decide)
  · exact hsigns c (List.mem_append_left _ hsign)
  · exact hsigns c (List.mem_append_right _ hblank)

/-- The characters that are accepted: those of the language but the quote, and three signs more. -/
theorem isDelimiterChar_iff {c : Char} : isDelimiterChar c = true ↔
    isDelimiterMember c = true ∧ c ≠ '"' ∨ c ∈ foreignSigns := by
  -- Both sides hold only in ASCII, where each character can be looked at.
  have hascii : ∀ n < 128, isDelimiterChar (Char.ofNat n) =
      (isDelimiterMember (Char.ofNat n) && Char.ofNat n != '"' ||
        foreignSigns.contains (Char.ofNat n)) := by decide +kernel
  have hforeign : ∀ d ∈ foreignSigns, d.toNat < 128 := by
    have hall : foreignSigns.all fun d => d.toNat < 128 := by decide
    simpa using List.all_eq_true.1 hall
  by_cases hc : c.toNat < 128
  · have hchar := hascii c.toNat hc
    rw [Char.ofNat_toNat] at hchar
    rw [hchar]
    simp
  · refine iff_of_false (fun h => hc (toNat_lt_of_isDelimiterChar h)) ?_
    rintro (⟨hmember, -⟩ | hmem)
    · exact hc (toNat_lt_of_isDelimiterMember hmember)
    · exact hc (hforeign c hmem)

theorem not_isDelimiterMember_of_mem_foreignSigns {c : Char} (h : c ∈ foreignSigns) :
    isDelimiterMember c = false := by
  have hall : foreignSigns.all fun d => !isDelimiterMember d := by decide
  simpa using List.all_eq_true.1 hall c h

/-! ### Delimiters -/

theorem isDelimiterSequence_iff {d : List Char} : isDelimiterSequence d = true ↔
    d.length ≤ 16 ∧ ∀ c ∈ d, isDelimiterMember c = true := by
  simp [isDelimiterSequence]

/-- A delimiter of accepted characters has as many bytes as characters. -/
theorem byteSize_of_isDelimiterChar {d : List Char} (h : ∀ c ∈ d, isDelimiterChar c = true) :
    Utf8.byteSize d = d.length := by
  induction d with
  | nil => rfl
  | cons c d ih =>
    obtain ⟨hc, hd⟩ := List.forall_mem_cons.1 h
    have hsize : c.utf8Size = 1 := by
      have hlt := toNat_lt_of_isDelimiterChar hc
      rw [Char.utf8Size_eq_one_iff, UInt32.le_iff_toNat_le]
      change c.toNat ≤ 127
      omega
    rw [Utf8.byteSize_cons, ih hd, hsize, List.length_cons, Nat.add_comm]

/-- The check accepts up to sixteen characters, each of which it accepts. -/
theorem checkDelimiter_eq_ok_iff {d : List Char} :
    checkDelimiter d = .ok () ↔ d.length ≤ 16 ∧ ∀ c ∈ d, isDelimiterChar c = true := by
  constructor
  · intro h
    have hall : ∀ c ∈ d, isDelimiterChar c = true := fun c hc => isDelimiterChar_of_mem h hc
    refine ⟨?_, hall⟩
    rw [checkDelimiter, byteSize_of_isDelimiterChar hall] at h
    split at h
    · cases h
    · next hsize => exact Nat.le_of_not_lt hsize
  · rintro ⟨hlength, hall⟩
    have hsize : ¬maxDelimiterSize < Utf8.byteSize d := by
      rw [byteSize_of_isDelimiterChar hall]
      exact Nat.not_lt.2 hlength
    have hnone : d.find? (fun c => !isDelimiterChar c) = none := find?_not_eq_none_iff.2 hall
    rw [checkDelimiter, if_neg hsize, hnone]

/-- The language's delimiters without a quote are the accepted ones without a foreign sign. -/
theorem isDelimiterSequence_and_iff {d : List Char} :
    isDelimiterSequence d = true ∧ '"' ∉ d ↔
      checkDelimiter d = .ok () ∧ ∀ c ∈ foreignSigns, c ∉ d := by
  rw [isDelimiterSequence_iff, checkDelimiter_eq_ok_iff]
  constructor
  · rintro ⟨⟨hlength, hmembers⟩, hquote⟩
    refine ⟨⟨hlength, fun c hc => isDelimiterChar_iff.2 (.inl ⟨hmembers c hc, ?_⟩)⟩, ?_⟩
    · rintro rfl
      exact hquote hc
    · intro c hforeign hc
      exact absurd (hmembers c hc) (by simp [not_isDelimiterMember_of_mem_foreignSigns hforeign])
  · rintro ⟨⟨hlength, hall⟩, hforeign⟩
    have hmembers : ∀ c ∈ d, isDelimiterMember c = true ∧ c ≠ '"' := by
      intro c hc
      exact (isDelimiterChar_iff.1 (hall c hc)).resolve_right fun hmem => hforeign c hmem hc
    exact ⟨⟨hlength, fun c hc => (hmembers c hc).1⟩, fun hquote => (hmembers _ hquote).2 rfl⟩

/-! ### Tokens -/

/-- The text of a raw literal that a compiler takes for a token, and what follows it. -/
def rawToken? : List Char → Option (List Char × List Char)
  | 'R' :: '"' :: text => do
    let (delimiter, body) ← cut? ['('] text
    if isDelimiterSequence delimiter then cut? (')' :: delimiter ++ ['"']) body else none
  | _ => none

/-- A raw literal is a token with its text, if its delimiter is one of the language. -/
theorem rawToken?_raw {d content : List Char} (hdelimiter : checkDelimiter d = .ok ())
    (hfree : occursIn (terminator d) content = false) (rest : List Char) :
    rawToken? (raw d content ++ rest) =
      if isDelimiterSequence d then some (content, rest) else none := by
  obtain ⟨hopen, -⟩ := parentheses_not_mem hdelimiter
  have hfront := cut?_singleton hopen (content ++ terminator d ++ rest)
  have hread := literal?_raw hdelimiter hfree rest
  rw [literal?_raw_eq_cut? hopen] at hread
  simp only [raw, List.cons_append, List.append_assoc, rawToken?] at hfront hread ⊢
  simp only [hfront, Option.bind_eq_bind, Option.bind_some]
  simp only [terminator, List.cons_append] at hread ⊢
  rw [hread]

end Literal

/-- A delimiter is accepted if it has up to sixteen characters, each one that the language allows and
no quote, or a foreign sign. The accepted ones without a foreign sign are just those of the language
without a quote, and just with these do accepted settings write raw literals that are tokens. -/
theorem delimiter_accepted (d : List Char) :
    (checkDelimiter d = .ok () ↔
      d.length ≤ 16 ∧ ∀ c ∈ d, isDelimiterMember c = true ∧ c ≠ '"' ∨ c ∈ foreignSigns) ∧
    (isDelimiterSequence d = true ∧ '"' ∉ d ↔
      checkDelimiter d = .ok () ∧ ∀ c ∈ foreignSigns, c ∉ d) ∧
    ∀ (config : Config) (source : Path), config.validate source = .ok () →
      config.literals = ⟨.raw, d⟩ → ∀ indent content literal,
        config.literals.render indent content = .ok literal →
          ((∀ rest, rawToken? (literal ++ rest) = some (content, rest)) ↔
            ∀ c ∈ foreignSigns, c ∉ d) := by
  refine ⟨?_, isDelimiterSequence_and_iff, ?_⟩
  · rw [checkDelimiter_eq_ok_iff]
    simp only [isDelimiterChar_iff]
  · intro config source haccepted hstyle indent content literal hrender
    have hdelimiter : checkDelimiter d = .ok () := by
      have hchecked := (Config.validate_eq_ok_iff.1 haccepted).delimiter
      rwa [hstyle] at hchecked
    rw [hstyle] at hrender
    obtain ⟨hcheck, rfl⟩ := (LiteralStyle.render_eq_ok_iff ..).1 hrender
    have hfree := (((LiteralStyle.check_eq_ok_iff ..).1 hcheck).2 rfl).2
    simp only [rawToken?_raw hdelimiter hfree]
    constructor
    · intro htoken
      have hsequence : isDelimiterSequence d = true := by
        by_contra hnot
        exact absurd (htoken []) (by simp [hnot])
      have hquote : '"' ∉ d := fun hmem =>
        absurd (isDelimiterChar_of_mem hdelimiter hmem) (by decide)
      exact (isDelimiterSequence_and_iff.1 ⟨hsequence, hquote⟩).2
    · intro hforeign rest
      rw [if_pos (isDelimiterSequence_and_iff.2 ⟨hdelimiter, hforeign⟩).1]

def Config.delimitedBy (d : List Char) : Config :=
  { Config.standard with literals := ⟨.raw, d⟩ }

/-- Settings with the delimiter `a-b` are accepted, and what they write is a token. -/
theorem delimiter_accepted_hyphen :
    (Config.delimitedBy "a-b".toList).validate (.ofString "f") = .ok () ∧
      (Config.delimitedBy "a-b".toList).literals.render [] "x".toList =
        .ok "R\"a-b(x)a-b\"".toList ∧
      ∀ rest, rawToken? ("R\"a-b(x)a-b\"".toList ++ rest) = some ("x".toList, rest) := by
  have haccepted : (Config.delimitedBy "a-b".toList).validate (.ofString "f") = .ok () := rfl
  have hrender : (Config.delimitedBy "a-b".toList).literals.render [] "x".toList =
      .ok "R\"a-b(x)a-b\"".toList := rfl
  have hforeign : ∀ c ∈ foreignSigns, c ∉ "a-b".toList := by
    have hall : foreignSigns.all fun c => c ∉ "a-b".toList := by decide
    simpa using List.all_eq_true.1 hall
  obtain ⟨-, -, htokens⟩ := delimiter_accepted "a-b".toList
  exact ⟨haccepted, hrender, (htokens _ _ haccepted rfl _ _ _ hrender).2 hforeign⟩

/-- The delimiter `@` is accepted, alone and in settings, but the language does not allow it, and no
literal with it is a token. -/
theorem at_sign_accepted :
    checkDelimiter ['@'] = .ok () ∧ isDelimiterSequence ['@'] = false ∧
      (Config.delimitedBy ['@']).validate (.ofString "f") = .ok () ∧
      ∀ content rest, occursIn (terminator ['@']) content = false →
        rawToken? (raw ['@'] content ++ rest) = none := by
  refine ⟨rfl, by decide, rfl, fun content rest hfree => ?_⟩
  rw [rawToken?_raw rfl hfree, if_neg (by decide)]

end AssetBake
