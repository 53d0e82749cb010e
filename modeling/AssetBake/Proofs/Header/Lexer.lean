import AssetBake.Key
import AssetBake.Proofs.Literal.ReadBack
import AssetBake.Proofs.Text.Trim
import Mathlib

/-!
# Lexing headers

The tokens of a header, as a compiler takes them before it looks at directives. A literal is one token
whatever stands in it, comments and blanks are none, and the ends of lines are kept, since directives
end with them. The lexer knows nothing of how headers are written.
-/

namespace AssetBake.Reader

open Text Literal

inductive Token
  | word (name : List Char)
  | text (value : List Char)
  | sign (c : Char)
deriving DecidableEq

/-- A token, or the end of a line. -/
inductive Lexeme
  | token (t : Token)
  | line
deriving DecidableEq

/-- What follows the comment that begins here. -/
def comment? : List Char → Option (List Char)
  | '/' :: '/' :: rest => some (rest.dropWhile (· ≠ '\n'))
  | '/' :: '*' :: rest => (cut? ['*', '/'] rest).map (·.2)
  | _ => none

theorem length_comment?_lt {text rest : List Char} (h : comment? text = some rest) :
    rest.length < text.length := by
  fun_cases comment? text with
  | case1 text =>
    simp only [comment?, Option.some.injEq] at h
    have hle := (List.dropWhile_suffix (l := text) (· ≠ '\n')).length_le
    rw [h] at hle
    simp only [List.length_cons]
    omega
  | case2 text =>
    obtain ⟨⟨front, after⟩, hcut, rfl⟩ := Option.map_eq_some_iff.1 h
    have hle := length_cut?_le hcut
    simp only [List.length_cons]
    omega
  | case3 => simp_all [comment?]

/-- The tokens of a text with the ends of its lines between them. -/
def lexemes? (text : List Char) : Option (List Lexeme) :=
  match text with
  | [] => some []
  | c :: rest =>
    if c = '\n' then (lexemes? rest).map (.line :: ·)
    else if isBlank c then lexemes? rest
    else
      match h : comment? (c :: rest) with
      | some after =>
        have : after.length < rest.length + 1 := length_comment?_lt h
        lexemes? after
      | none =>
        if beginsLiteral (c :: rest) then
          match h : literal? (c :: rest) with
          | none => none
          | some (value, after) =>
            have : after.length < rest.length + 1 := length_literal?_lt h
            (lexemes? after).map (.token (.text value) :: ·)
        else if isKeyChar c then
          have : (rest.dropWhile isKeyChar).length < rest.length + 1 :=
            Nat.lt_succ_of_le (List.dropWhile_suffix _).length_le
          (lexemes? (rest.dropWhile isKeyChar)).map
            (.token (.word (c :: rest.takeWhile isKeyChar)) :: ·)
        else (lexemes? rest).map (.token (.sign c) :: ·)
termination_by text.length

theorem comment?_cons {c : Char} (h : c ≠ '/') (rest : List Char) : comment? (c :: rest) = none := by
  rw [comment?]
  · rintro more ⟨⟩
    exact h rfl
  · rintro more ⟨⟩
    exact h rfl

theorem beginsLiteral_cons {c : Char} {rest : List Char} (hquote : c ≠ '"')
    (h : c ≠ 'R' ∨ rest.head? ≠ some '"') : beginsLiteral (c :: rest) = false := by
  rw [beginsLiteral]
  · rintro more ⟨⟩
    simp at h
  · rintro more ⟨⟩
    exact hquote rfl

theorem isBlank_of_isKeyChar {c : Char} (h : isKeyChar c = true) : isBlank c = false := by
  rw [isKeyChar, Bool.or_eq_true, beq_iff_eq] at h
  rcases h with h | rfl
  · exact isBlank_of_isAlphanum h
  · rfl

section Steps

variable {c : Char} {rest after value : List Char}

theorem lexemes?_line (rest : List Char) :
    lexemes? ('\n' :: rest) = (lexemes? rest).map (.line :: ·) := by
  rw [lexemes?]
  simp

theorem lexemes?_blank (hline : c ≠ '\n') (hblank : isBlank c = true) :
    lexemes? (c :: rest) = lexemes? rest := by
  rw [lexemes?]
  simp [hline, hblank]

theorem ne_newline_of_isBlank (hblank : isBlank c = false) : c ≠ '\n' := by
  rintro rfl
  exact absurd hblank (by decide)

theorem lexemes?_comment (hblank : isBlank c = false) (h : comment? (c :: rest) = some after) :
    lexemes? (c :: rest) = lexemes? after := by
  rw [lexemes?, if_neg (ne_newline_of_isBlank hblank), if_neg (by simp [hblank])]
  split
  · next hsome =>
    rw [h] at hsome
    cases hsome
    rfl
  · next hnone => simp [h] at hnone

theorem lexemes?_literal (hblank : isBlank c = false) (hcomment : comment? (c :: rest) = none)
    (hbegin : beginsLiteral (c :: rest) = true) (h : literal? (c :: rest) = some (value, after)) :
    lexemes? (c :: rest) = (lexemes? after).map (.token (.text value) :: ·) := by
  rw [lexemes?, if_neg (ne_newline_of_isBlank hblank), if_neg (by simp [hblank])]
  split
  · next hsome => simp [hcomment] at hsome
  · rw [if_pos hbegin]
    split
    · next hnone => simp [h] at hnone
    · next hsome =>
      rw [h] at hsome
      cases hsome
      rfl

theorem lexemes?_word (hblank : isBlank c = false) (hcomment : comment? (c :: rest) = none)
    (hbegin : beginsLiteral (c :: rest) = false) (hkey : isKeyChar c = true) :
    lexemes? (c :: rest) = (lexemes? (rest.dropWhile isKeyChar)).map
      (.token (.word (c :: rest.takeWhile isKeyChar)) :: ·) := by
  rw [lexemes?, if_neg (ne_newline_of_isBlank hblank), if_neg (by simp [hblank])]
  split
  · next hsome => simp [hcomment] at hsome
  · simp [hbegin, hkey]

theorem lexemes?_sign (hblank : isBlank c = false) (hcomment : comment? (c :: rest) = none)
    (hbegin : beginsLiteral (c :: rest) = false) (hkey : isKeyChar c = false) :
    lexemes? (c :: rest) = (lexemes? rest).map (.token (.sign c) :: ·) := by
  rw [lexemes?, if_neg (ne_newline_of_isBlank hblank), if_neg (by simp [hblank])]
  split
  · next hsome => simp [hcomment] at hsome
  · simp [hbegin, hkey]

end Steps

/-! ### Pieces of a text -/

/-- A piece of a text gives these lexemes, whatever follows it. -/
def Lexes (piece : List Char) (lexemes : List Lexeme) : Prop :=
  ∀ rest, lexemes? (piece ++ rest) = (lexemes? rest).map (lexemes ++ ·)

/-- Whether a character is a token of its own wherever it stands. -/
def isSign (c : Char) : Bool :=
  !isBlank c && !isKeyChar c && c != '"' && c != '/'

def isWord (name : List Char) : Bool :=
  !name.isEmpty && name.all isKeyChar

namespace Lexes

theorem nil : Lexes [] [] := by
  intro rest
  simp

theorem append {front back : List Char} {lexemes more : List Lexeme}
    (hfront : Lexes front lexemes) (hback : Lexes back more) :
    Lexes (front ++ back) (lexemes ++ more) := by
  intro rest
  rw [List.append_assoc, hfront, hback, Option.map_map]
  congr 1
  funext others
  simp

theorem eq_some {text : List Char} {lexemes : List Lexeme} (h : Lexes text lexemes) :
    lexemes? text = some lexemes := by
  have hend := h []
  rw [List.append_nil, lexemes?] at hend
  simpa using hend

section Cons

variable {c : Char} {name piece : List Char} {lexemes : List Lexeme}

theorem line (hpiece : Lexes piece lexemes) : Lexes ('\n' :: piece) (.line :: lexemes) := by
  intro rest
  rw [List.cons_append, lexemes?_line, hpiece, Option.map_map]
  rfl

theorem blank (hline : c ≠ '\n') (hblank : isBlank c = true) (hpiece : Lexes piece lexemes) :
    Lexes (c :: piece) lexemes := by
  intro rest
  rw [List.cons_append, lexemes?_blank hline hblank, hpiece]

theorem space (hpiece : Lexes piece lexemes) : Lexes (' ' :: piece) lexemes :=
  hpiece.blank (by decide) (by decide)

theorem sign (h : isSign c = true) (hpiece : Lexes piece lexemes) :
    Lexes (c :: piece) (.token (.sign c) :: lexemes) := by
  intro rest
  simp only [isSign, Bool.and_eq_true, Bool.not_eq_true', bne_iff_ne] at h
  obtain ⟨⟨⟨hblank, hkey⟩, hquote⟩, hslash⟩ := h
  have hword : c ≠ 'R' := by
    rintro rfl
    exact absurd hkey (by decide)
  rw [List.cons_append, lexemes?_sign hblank (comment?_cons hslash _)
    (beginsLiteral_cons hquote (.inl hword)) hkey, hpiece, Option.map_map]
  rfl

/-- A word ends where a character follows that no word holds. -/
theorem word (hname : isWord name = true) (hc : isKeyChar c = false) (hquote : c ≠ '"')
    (hpiece : Lexes (c :: piece) lexemes) :
    Lexes (name ++ c :: piece) (.token (.word name) :: lexemes) := by
  intro rest
  simp only [isWord, Bool.and_eq_true, Bool.not_eq_true', List.all_eq_true] at hname
  obtain ⟨hne, hname⟩ := hname
  have hother : ∀ d ∈ name, ∀ e, isKeyChar e = false → d ≠ e := by
    rintro d hd e he rfl
    simp [hname d hd] at he
  cases name with
  | nil => simp at hne
  | cons d name =>
    obtain ⟨hd, hname⟩ := List.forall_mem_cons.1 hname
    obtain ⟨hfirst, hsecond⟩ := List.forall_mem_cons.1 hother
    have hliteral : beginsLiteral (d :: (name ++ c :: (piece ++ rest))) = false := by
      refine beginsLiteral_cons (hfirst '"' (by decide)) (.inr ?_)
      cases name with
      | nil => simpa using hquote
      | cons e name => simpa using hsecond e List.mem_cons_self '"' (by decide)
    have htake : (name ++ c :: (piece ++ rest)).takeWhile isKeyChar = name := by
      rw [List.takeWhile_append_of_pos hname]
      simp [hc]
    have hdrop : (name ++ c :: (piece ++ rest)).dropWhile isKeyChar = c :: (piece ++ rest) := by
      rw [List.dropWhile_append_of_pos hname]
      simp [hc]
    have hmore : lexemes? (c :: (piece ++ rest)) = (lexemes? rest).map (lexemes ++ ·) := hpiece rest
    rw [List.cons_append, List.cons_append, List.append_assoc, List.cons_append,
      lexemes?_word (isBlank_of_isKeyChar hd) (comment?_cons (hfirst '/' (by decide)) _) hliteral hd,
      htake, hdrop, hmore, Option.map_map]
    rfl

theorem word_space (hname : isWord name = true) (hpiece : Lexes piece lexemes) :
    Lexes (name ++ ' ' :: piece) (.token (.word name) :: lexemes) :=
  word hname (by decide) (by decide) hpiece.space

theorem word_line (hname : isWord name = true) (hpiece : Lexes piece lexemes) :
    Lexes (name ++ '\n' :: piece) (.token (.word name) :: .line :: lexemes) :=
  word hname (by decide) (by decide) hpiece.line

theorem word_sign (hname : isWord name = true) (h : isSign c = true)
    (hpiece : Lexes piece lexemes) :
    Lexes (name ++ c :: piece) (.token (.word name) :: .token (.sign c) :: lexemes) := by
  have hsign := h
  simp only [isSign, Bool.and_eq_true, Bool.not_eq_true', bne_iff_ne] at hsign
  exact word hname hsign.1.1.2 hsign.1.2 (hpiece.sign h)

end Cons

theorem comment {content : List Char} (h : '\n' ∉ content) :
    Lexes ('/' :: '/' :: content ++ ['\n']) [.line] := by
  intro rest
  have hcontent : ∀ c ∈ content, decide (c ≠ '\n') = true := by
    intro c hc
    have hne : c ≠ '\n' := fun heq => h (heq ▸ hc)
    simpa using hne
  have hcomment : comment? ('/' :: '/' :: (content ++ '\n' :: rest)) = some ('\n' :: rest) := by
    rw [comment?, List.dropWhile_append_of_pos hcontent]
    simp
  have hline := lexemes?_line rest
  rw [← lexemes?_comment (by decide) hcomment] at hline
  simpa using hline

theorem literal {c : Char} {piece value : List Char} (hblank : isBlank c = false)
    (hslash : c ≠ '/') (hbegin : ∀ rest, beginsLiteral (c :: (piece ++ rest)) = true)
    (h : ∀ rest, literal? (c :: (piece ++ rest)) = some (value, rest)) :
    Lexes (c :: piece) [.token (.text value)] := by
  intro rest
  exact lexemes?_literal hblank (comment?_cons hslash _) (hbegin rest) (h rest)

end Lexes

end AssetBake.Reader
