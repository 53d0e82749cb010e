import AssetBake.Text.Blank
import AssetBake.Text.Utf8

/-!
# Reading literals

Adjacent string literals as a compiler takes them. A raw literal ends at the first occurrence of its
terminator, an escape stands for one byte, and neighbours with nothing but blanks between them are
one text. The reader knows nothing of how literals are written.
-/

namespace AssetBake.Reader

open Text

/-! ### Tokens -/

/-- What follows a token at the front of a text. -/
def expect? : List Char → List Char → Option (List Char)
  | [], text => some text
  | _ :: _, [] => none
  | c :: token, d :: text => if c = d then expect? token text else none

/-- The text before the first occurrence of a token, and the text after that occurrence. -/
def cut? (token : List Char) : List Char → Option (List Char × List Char)
  | [] => (expect? token []).map ([], ·)
  | c :: text =>
    match expect? token (c :: text) with
    | some rest => some ([], rest)
    | none => (cut? token text).map fun (front, rest) => (c :: front, rest)

theorem expect?_eq_some_iff {token text rest : List Char} :
    expect? token text = some rest ↔ text = token ++ rest := by
  induction token generalizing text with
  | nil => simp [expect?]
  | cons c token ih =>
    cases text with
    | nil => simp [expect?]
    | cons d text =>
      by_cases h : c = d
      · simp [expect?, h, ih]
      · simp [expect?, h, Ne.symm h]

@[simp] theorem expect?_append (token rest : List Char) :
    expect? token (token ++ rest) = some rest :=
  expect?_eq_some_iff.2 rfl

theorem length_expect?_le {token text rest : List Char} (h : expect? token text = some rest) :
    rest.length ≤ text.length := by
  rw [expect?_eq_some_iff.1 h, List.length_append]
  exact Nat.le_add_left _ _

theorem length_expect?_lt {c : Char} {token text rest : List Char}
    (h : expect? (c :: token) text = some rest) : rest.length < text.length := by
  rw [expect?_eq_some_iff.1 h, List.length_append, List.length_cons]
  omega

theorem length_cut?_le {token text front rest : List Char}
    (h : cut? token text = some (front, rest)) : rest.length ≤ text.length := by
  induction text generalizing front with
  | nil =>
    obtain ⟨after, hafter, heq⟩ := Option.map_eq_some_iff.1 h
    cases heq
    exact length_expect?_le hafter
  | cons c text ih =>
    rw [cut?] at h
    split at h
    · next after hafter =>
      cases h
      exact length_expect?_le hafter
    · obtain ⟨⟨front', rest'⟩, hcut, heq⟩ := Option.map_eq_some_iff.1 h
      cases heq
      exact Nat.le_succ_of_le (ih hcut)

/-- A token is found where it stands, unless it begins earlier. -/
theorem cut?_append {token front rest : List Char}
    (hfirst : ∀ tail, tail ≠ [] → tail <:+ front → expect? token (tail ++ token ++ rest) = none) :
    cut? token (front ++ token ++ rest) = some (front, rest) := by
  induction front with
  | nil =>
    cases token with
    | nil => cases rest <;> simp [cut?, expect?]
    | cons c token =>
      rw [List.nil_append, List.cons_append, cut?, ← List.cons_append, expect?_append]
  | cons c front ih =>
    have hnone := hfirst (c :: front) (by simp) (List.suffix_refl _)
    have hrest := ih fun tail hne htail => hfirst tail hne (htail.trans (List.suffix_cons c front))
    simp only [List.cons_append] at hnone ⊢
    rw [cut?, hnone]
    simp only [hrest, Option.map_some]

/-- A character that does not stand in the front is found behind it. -/
theorem cut?_singleton {c : Char} {front : List Char} (h : c ∉ front) (rest : List Char) :
    cut? [c] (front ++ c :: rest) = some (front, rest) := by
  have hfirst : ∀ tail, tail ≠ [] → tail <:+ front →
      expect? [c] (tail ++ [c] ++ rest) = none := by
    intro tail hne htail
    cases tail with
    | nil => exact absurd rfl hne
    | cons d tail =>
      have hd : c ≠ d := fun heq => h (heq ▸ htail.subset List.mem_cons_self)
      simp [expect?, hd]
  simpa using cut?_append hfirst

/-! ### Escapes -/

def isOctal (c : Char) : Bool :=
  '0' ≤ c && c ≤ '7'

def isHexadecimal (c : Char) : Bool :=
  c.isDigit || ('a' ≤ c && c ≤ 'f') || ('A' ≤ c && c ≤ 'F')

/-- The value of a digit of any base up to sixteen. -/
def digitValue (c : Char) : Nat :=
  if c.isDigit then c.toNat - '0'.toNat else c.toLower.toNat - 'a'.toNat + 10

/-- The byte that some digits write, if they write a byte. -/
def byteOfDigits? (base : Nat) (digits : List Char) : Option UInt8 :=
  let n := digits.foldl (fun n d => base * n + digitValue d) 0
  if digits.isEmpty || 256 ≤ n then none else some (UInt8.ofNat n)

/-- The byte of an escape of one letter or sign. -/
def shortEscape? : Char → Option UInt8
  | 'n' => some 0x0a
  | 't' => some 0x09
  | 'r' => some 0x0d
  | 'a' => some 0x07
  | 'b' => some 0x08
  | 'f' => some 0x0c
  | 'v' => some 0x0b
  | '\\' => some 0x5c
  | '"' => some 0x22
  | '\'' => some 0x27
  | '?' => some 0x3f
  | _ => none

/-- The byte of the escape whose backslash stands before the text, and what follows it. An escape
takes three octal digits at most, but any number of hexadecimal ones. -/
def escape? : List Char → Option (UInt8 × List Char)
  | [] => none
  | c :: rest =>
    if isOctal c then
      let digits := ((c :: rest).take 3).takeWhile isOctal
      (byteOfDigits? 8 digits).map (·, (c :: rest).drop digits.length)
    else if c = 'x' then
      let digits := rest.takeWhile isHexadecimal
      (byteOfDigits? 16 digits).map (·, rest.drop digits.length)
    else (shortEscape? c).map (·, rest)

theorem length_escape?_lt {text rest : List Char} {b : UInt8} (h : escape? text = some (b, rest)) :
    rest.length < text.length := by
  cases text with
  | nil => simp [escape?] at h
  | cons c text =>
    simp only [escape?] at h
    split at h
    · next hoctal =>
      obtain ⟨_, _, heq⟩ := Option.map_eq_some_iff.1 h
      cases heq
      rw [List.take_succ_cons, List.takeWhile_cons_of_pos hoctal, List.length_drop]
      simp only [List.length_cons]
      omega
    · split at h
      · obtain ⟨_, _, heq⟩ := Option.map_eq_some_iff.1 h
        cases heq
        simp only [List.length_drop, List.length_cons]
        omega
      · obtain ⟨_, _, heq⟩ := Option.map_eq_some_iff.1 h
        cases heq
        simp

/-! ### Literals -/

/-- The bytes of a literal whose opening quote stands before the text, and what follows it. -/
def quotedBody? : List Char → Option (List UInt8 × List Char)
  | [] => none
  | c :: text =>
    if c = '"' then some ([], text)
    else if c = '\n' then none
    else if c = '\\' then
      match h : escape? text with
      | none => none
      | some (b, rest) =>
        have : rest.length < text.length := length_escape?_lt h
        (quotedBody? rest).map fun (bytes, after) => (b :: bytes, after)
    else (quotedBody? text).map fun (bytes, after) => (String.utf8EncodeChar c ++ bytes, after)
termination_by text => text.length

/-- The text of a raw literal whose `R"` stands before the text, and what follows it. -/
def rawBody? (text : List Char) : Option (List Char × List Char) := do
  let (delimiter, body) ← cut? ['('] text
  cut? (')' :: delimiter ++ ['"']) body

/-- The text of the literal that begins here, and what follows it. -/
def literal? : List Char → Option (List Char × List Char)
  | 'R' :: '"' :: text => rawBody? text
  | '"' :: text =>
    (quotedBody? text).bind fun (bytes, rest) =>
      (Utf8.decode? bytes).map fun value => (value.toList, rest)
  | _ => none

def beginsLiteral : List Char → Bool
  | 'R' :: '"' :: _ => true
  | '"' :: _ => true
  | _ => false

theorem length_quotedBody?_le {text rest : List Char} {bytes : List UInt8}
    (h : quotedBody? text = some (bytes, rest)) : rest.length ≤ text.length := by
  fun_induction quotedBody? text generalizing bytes with
  | case1 => simp at h
  | case2 text =>
    cases h
    simp
  | case3 => simp at h
  | case4 => simp at h
  | case5 text _ _ b after hescape hlt ih =>
    obtain ⟨⟨more, last⟩, hbody, heq⟩ := Option.map_eq_some_iff.1 h
    cases heq
    have hle := ih hbody
    rw [List.length_cons]
    omega
  | case6 c text _ _ _ ih =>
    obtain ⟨⟨more, last⟩, hbody, heq⟩ := Option.map_eq_some_iff.1 h
    cases heq
    exact Nat.le_succ_of_le (ih hbody)

theorem length_literal?_lt {text value rest : List Char} (h : literal? text = some (value, rest)) :
    rest.length < text.length := by
  fun_cases literal? text with
  | case1 text =>
    simp only [literal?, rawBody?, Option.bind_eq_bind, Option.bind_eq_some_iff] at h
    obtain ⟨⟨delimiter, body⟩, hopen, hclose⟩ := h
    have hle := Nat.le_trans (length_cut?_le hclose) (length_cut?_le hopen)
    simp only [List.length_cons]
    omega
  | case2 text =>
    simp only [literal?, Option.bind_eq_some_iff] at h
    obtain ⟨⟨bytes, last⟩, hbody, hdecode⟩ := h
    obtain ⟨_, _, heq⟩ := Option.map_eq_some_iff.1 hdecode
    cases heq
    exact Nat.lt_succ_of_le (length_quotedBody?_le hbody)
  | case3 => simp_all [literal?]

/-- The joined text of the literals that follow each other from here on, and what follows them. -/
def adjacent? (text : List Char) : Option (List Char × List Char) :=
  if beginsLiteral text then
    match h : literal? text with
    | none => none
    | some (value, rest) =>
      have : (trimStart rest).length < text.length :=
        Nat.lt_of_le_of_lt (List.dropWhile_suffix _).length_le (length_literal?_lt h)
      (adjacent? (trimStart rest)).map fun (more, after) => (value ++ more, after)
  else some ([], text)
termination_by text.length

/-- The joined text of one or more adjacent literals, and what follows them. -/
def sequence? (text : List Char) : Option (List Char × List Char) :=
  if beginsLiteral text then adjacent? text else none

theorem length_adjacent?_le {text value rest : List Char}
    (h : adjacent? text = some (value, rest)) : rest.length ≤ text.length := by
  fun_induction adjacent? text generalizing value with
  | case1 => simp at h
  | case2 text _ first after hliteral hlt ih =>
    obtain ⟨⟨more, last⟩, hmore, heq⟩ := Option.map_eq_some_iff.1 h
    cases heq
    exact Nat.le_trans (ih hmore) (Nat.le_of_lt hlt)
  | case3 text _ =>
    cases h
    exact Nat.le_refl _

theorem length_sequence?_le {text value rest : List Char}
    (h : sequence? text = some (value, rest)) : rest.length ≤ text.length := by
  rw [sequence?] at h
  split at h
  · exact length_adjacent?_le h
  · simp at h

end AssetBake.Reader
