import AssetBake.Proofs.Literal.ReadBack
import AssetBake.Proofs.Text.Pieces
import Mathlib.Tactic.SplitIfs
import Mathlib.Tactic.Tauto

/-!
# Characters of literals

Which characters a written literal can hold. Escapes leave no control character, and the raw form
refuses the two that a source file must not hold.
-/

namespace AssetBake

open Text Literal

namespace Literal

/-! ### Between double quotes -/

/-- Nothing that a character is written as is a control character. -/
theorem isControl_of_mem_escapedChar {afterQuestion : Bool} {c d : Char}
    (h : d ∈ escapedChar afterQuestion c) : isControl d = false := by
  have hoctal : ∀ n < 8, isControl (Nat.digitChar n) = false := by decide
  rw [escapedChar] at h
  split_ifs at h with _ _ _ _ _ _ hcontrol
  rotate_left 6
  · simp only [octal, List.mem_cons, List.not_mem_nil, or_false] at h
    rcases h with rfl | rfl | rfl | rfl
    · decide
    all_goals exact hoctal _ (Nat.mod_lt _ (by decide))
  · rw [List.mem_singleton.1 h]
    exact Bool.eq_false_iff.2 hcontrol
  -- The short escapes are fixed texts.
  all_goals
    simp only [List.mem_cons, List.not_mem_nil, or_false] at h
    rcases h with rfl | rfl <;> decide

theorem isControl_of_mem_escapeAfter {afterQuestion : Bool} {s : List Char} {d : Char}
    (h : d ∈ escapeAfter afterQuestion s) : isControl d = false := by
  induction s generalizing afterQuestion with
  | nil => simp [escapeAfter] at h
  | cons c s ih =>
    rcases List.mem_append.1 h with h | h
    · exact isControl_of_mem_escapedChar h
    · exact ih h

theorem isControl_of_mem_quoted {s : List Char} {d : Char} (h : d ∈ quoted s) :
    isControl d = false := by
  simp only [quoted, List.cons_append, List.mem_cons, List.mem_append, List.not_mem_nil,
    or_false] at h
  rcases h with rfl | h | rfl
  · decide
  · exact isControl_of_mem_escapeAfter h
  · decide

/-- An escaped text holds no control character, but for the newlines between its lines. -/
theorem isControl_of_mem_escaped {indent content : List Char} {d : Char}
    (h : d ∈ escaped indent content) : d = '\n' ∨ d ∈ indent ∨ isControl d = false := by
  rw [escaped] at h
  split at h
  · exact .inr (.inr (isControl_of_mem_quoted h))
  · rcases mem_intercalate h with hglue | ⟨_, hline, hmem⟩
    · rcases List.mem_cons.1 hglue with rfl | hindent
      · exact .inl rfl
      · exact .inr (.inl hindent)
    · obtain ⟨line, _, rfl⟩ := List.mem_map.1 hline
      exact .inr (.inr (isControl_of_mem_quoted hmem))

/-! ### Between delimiters -/

theorem mem_raw {delimiter content : List Char} {c : Char} (h : c ∈ raw delimiter content) :
    c ∈ delimiter ∨ c ∈ content ∨ c ∈ ['R', '"', '(', ')'] := by
  simp only [raw, terminator, List.cons_append, List.mem_cons, List.mem_append, List.not_mem_nil,
    or_false] at h ⊢
  tauto

end Literal

/-- Whether a source file may hold a character in a literal and in what surrounds it. -/
def isSourceChar (c : Char) : Bool :=
  c != '\x00' && c != '\r'

theorem isSourceChar_of_isControl {c : Char} (h : isControl c = false) : isSourceChar c = true := by
  rw [isSourceChar, Bool.and_eq_true, bne_iff_ne, bne_iff_ne]
  constructor <;> rintro rfl <;> exact absurd h (by decide)

theorem isSourceChar_of_isDelimiterChar {c : Char} (h : isDelimiterChar c = true) :
    isSourceChar c = true := by
  rw [isSourceChar, Bool.and_eq_true, bne_iff_ne, bne_iff_ne]
  constructor <;> rintro rfl <;> exact absurd h (by decide)

/-- A written literal holds neither a NUL nor a carriage return. -/
theorem LiteralStyle.isSourceChar_of_mem_render {style : LiteralStyle}
    {indent content literal : List Char} (hdelimiter : checkDelimiter style.delimiter = .ok ())
    (hindent : ∀ c ∈ indent, isSourceChar c = true)
    (hrender : style.render indent content = .ok literal) {c : Char} (h : c ∈ literal) :
    isSourceChar c = true := by
  obtain ⟨hcheck, rfl⟩ := (render_eq_ok_iff ..).1 hrender
  obtain ⟨hnul, hraw⟩ := (check_eq_ok_iff ..).1 hcheck
  cases hstrategy : style.strategy with
  | raw =>
    rw [hstrategy] at h
    rcases mem_raw h with h | h | h
    · exact isSourceChar_of_isDelimiterChar (isDelimiterChar_of_mem hdelimiter h)
    · rw [isSourceChar, Bool.and_eq_true, bne_iff_ne, bne_iff_ne]
      exact ⟨fun heq => hnul (heq ▸ h), fun heq => (hraw hstrategy).1 (heq ▸ h)⟩
    · have hsigns : ∀ d ∈ ['R', '"', '(', ')'], isSourceChar d = true :=
        List.all_eq_true.1 (by decide)
      exact hsigns c h
  | escaped =>
    rw [hstrategy] at h
    rcases isControl_of_mem_escaped h with rfl | h | h
    · decide
    · exact hindent c h
    · exact isSourceChar_of_isControl h

end AssetBake
