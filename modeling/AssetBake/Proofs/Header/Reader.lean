import AssetBake.Proofs.Literal.Reader
import AssetBake.Text.Lines

/-!
# Reading headers

What a header says to a compiler and to a person: the entries of the map that it defines, and the
number of files that its comment names.
-/

namespace AssetBake.Reader

open Text

/-- One entry of an initializer with the comma after it, and what follows them. -/
def pair? (text : List Char) : Option ((List Char × List Char) × List Char) := do
  let text ← expect? ['\x7b'] text
  let (key, text) ← sequence? (trimStart text)
  let text ← expect? [','] text
  let (value, text) ← sequence? (trimStart text)
  let text ← expect? ['\x7d'] text
  let text ← expect? [','] (trimStart text)
  return ((key, value), text)

theorem length_trimStart_le (text : List Char) : (trimStart text).length ≤ text.length :=
  (List.dropWhile_suffix _).length_le

theorem length_pair?_lt {text rest : List Char} {pair : List Char × List Char}
    (h : pair? text = some (pair, rest)) : rest.length < text.length := by
  simp only [pair?, Option.bind_eq_bind, Option.bind_eq_some_iff, Option.pure_def,
    Option.some.injEq, Prod.mk.injEq] at h
  obtain ⟨t1, hopen, ⟨key, t2⟩, hkey, t3, hcomma, ⟨value, t4⟩, hvalue, t5, hclose, t6, hlast,
    _, rfl⟩ := h
  have h1 := length_expect?_lt hopen
  have h2 := Nat.le_trans (length_sequence?_le hkey) (length_trimStart_le t1)
  have h3 := length_expect?_lt hcomma
  have h4 := Nat.le_trans (length_sequence?_le hvalue) (length_trimStart_le t3)
  have h5 := length_expect?_lt hclose
  have h6 := Nat.lt_of_lt_of_le (length_expect?_lt hlast) (length_trimStart_le t5)
  dsimp only at h3 h5
  omega

/-- The entries from here on, up to the brace and semicolon that close the map. -/
def pairs? (text : List Char) : Option (List (List Char × List Char)) :=
  match expect? ['\x7d', ';'] (trimStart text) with
  | some _ => some []
  | none =>
    match h : pair? (trimStart text) with
    | none => none
    | some (pair, rest) =>
      have : rest.length < text.length :=
        Nat.lt_of_lt_of_le (length_pair?_lt h) (length_trimStart_le text)
      (pairs? rest).map (pair :: ·)
termination_by text.length

/-- The entries of the first map that a header defines, as keys and texts. -/
def initializer? (header : List Char) : Option (List (List Char × List Char)) := do
  let (_, text) ← cut? " = \x7b\n".toList header
  pairs? text

/-- The number in the line that says how many files are embedded. -/
def statedCount? (header : List Char) : Option Nat := do
  let digits ← (plainLines header).findSome? (expect? "// Embedded files: ".toList)
  if digits.isEmpty || !digits.all Char.isDigit then none
  else return Nat.ofDigitChars 10 digits 0

end AssetBake.Reader
