import AssetBake.Report.Json
import AssetBake.Proofs.Literal.Reader
import AssetBake.Proofs.Text.Pieces
import Mathlib.Tactic.SplitIfs

/-!
# Reading JSON

A reader of JSON texts that knows nothing of how lines are written: every kind of value, nested up to a
depth, blanks between tokens, and every escape, pairs of surrogates included. What a line of fields
holds comes back from it in order.
-/

namespace AssetBake.Report

open Text Reader

/-- What a JSON text stands for. -/
inductive Json
  | null
  | truth (b : Bool)
  /-- The number `mantissa * 10 ^ exponent`. -/
  | number (mantissa exponent : Int)
  | text (s : List Char)
  | array (items : List Json)
  /-- The members in the order in which they stand. -/
  | object (members : List (List Char × Json))

/-! ### Strings -/

/-- The number of four hexadecimal digits, and what follows them. -/
def codeUnit? : List Char → Option (Nat × List Char)
  | a :: b :: c :: d :: rest =>
    if [a, b, c, d].all isHexadecimal then
      some ([a, b, c, d].foldl (fun n digit => 16 * n + digitValue digit) 0, rest)
    else none
  | _ => none

/-- The character of an escape of one letter or sign. -/
def shortJsonEscape? : Char → Option Char
  | '"' => some '"'
  | '\\' => some '\\'
  | '/' => some '/'
  | 'b' => some '\x08'
  | 'f' => some '\x0c'
  | 'n' => some '\n'
  | 'r' => some '\r'
  | 't' => some '\t'
  | _ => none

/-- The character beyond the first plane that a high and a low surrogate stand for. -/
def pairedChar? (high low : Nat) : Option Char :=
  if 0xd800 ≤ high ∧ high < 0xdc00 ∧ 0xdc00 ≤ low ∧ low < 0xe000 then
    some (Char.ofNat (0x10000 + (high - 0xd800) * 0x400 + (low - 0xdc00)))
  else none

/-- The character of the escape whose backslash stands before the text, and what follows it. -/
def jsonEscape? : List Char → Option (Char × List Char)
  | [] => none
  | 'u' :: text => do
    let (unit, rest) ← codeUnit? text
    if unit.isValidChar then some (Char.ofNat unit, rest)
    else
      let (low, rest) ← codeUnit? (← expect? ['\\', 'u'] rest)
      (pairedChar? unit low).map (·, rest)
  | c :: rest => (shortJsonEscape? c).map (·, rest)

theorem length_codeUnit?_le {text rest : List Char} {n : Nat}
    (h : codeUnit? text = some (n, rest)) : rest.length ≤ text.length := by
  rw [codeUnit?.eq_def] at h
  split at h
  · split at h
    · cases h
      simp only [List.length_cons]
      omega
    · cases h
  · cases h

theorem length_jsonEscape?_lt {text rest : List Char} {c : Char}
    (h : jsonEscape? text = some (c, rest)) : rest.length < text.length := by
  rw [jsonEscape?.eq_def] at h
  split at h
  · cases h
  · next text =>
    simp only [Option.bind_eq_bind, Option.bind_eq_some_iff, Prod.exists] at h
    obtain ⟨unit, after, hunit, h⟩ := h
    have hfirst := length_codeUnit?_le hunit
    rw [List.length_cons]
    split at h
    · cases h
      omega
    · simp only [Option.bind_eq_some_iff, Prod.exists] at h
      obtain ⟨more, hmore, low, last, hlow, h⟩ := h
      have hexpect := length_expect?_le hmore
      have hsecond := length_codeUnit?_le hlow
      simp only [Option.map_eq_some_iff, Prod.mk.injEq] at h
      obtain ⟨_, _, -, rfl⟩ := h
      omega
  · simp only [Option.map_eq_some_iff, Prod.mk.injEq] at h
    obtain ⟨_, _, -, rfl⟩ := h
    simp

/-- The text of a string whose opening quote stands before the text, and what follows it. -/
def stringBody? : List Char → Option (List Char × List Char)
  | [] => none
  | c :: text =>
    if c = '"' then some ([], text)
    else if c.toNat < 0x20 then none
    else if c = '\\' then
      match h : jsonEscape? text with
      | none => none
      | some (d, rest) =>
        have : rest.length < text.length := length_jsonEscape?_lt h
        (stringBody? rest).map fun (s, after) => (d :: s, after)
    else (stringBody? text).map fun (s, after) => (c :: s, after)
termination_by text => text.length

/-! ### Values -/

/-- The digits behind a decimal point, if there is one, and what follows them. -/
def fraction? : List Char → Option (List Char × List Char)
  | '.' :: s =>
    if (s.takeWhile Char.isDigit).isEmpty then none
    else some (s.takeWhile Char.isDigit, s.dropWhile Char.isDigit)
  | s => some ([], s)

/-- The number in the digits at the front of a text, and what follows them. -/
def wholeNumber? (s : List Char) : Option (Nat × List Char) :=
  let digits := s.takeWhile Char.isDigit
  if digits.isEmpty then none else some (Nat.ofDigitChars 10 digits 0, s.dropWhile Char.isDigit)

/-- The number with or without a sign at the front of a text, and what follows it. -/
def signedNumber? : List Char → Option (Int × List Char)
  | '-' :: s => (wholeNumber? s).map fun (n, rest) => (-(n : Int), rest)
  | '+' :: s => (wholeNumber? s).map fun (n, rest) => ((n : Int), rest)
  | s => (wholeNumber? s).map fun (n, rest) => ((n : Int), rest)

/-- The exponent at the front of a text, if there is one, and what follows it. -/
def exponent? : List Char → Option (Int × List Char)
  | [] => some (0, [])
  | c :: s => if c = 'e' ∨ c = 'E' then signedNumber? s else some (0, c :: s)

/-- The number without a sign at the front of a text, and what follows it. It has no zero in front of
other digits. -/
def unsigned? (s : List Char) : Option (Nat × Int × List Char) := do
  let whole := s.takeWhile Char.isDigit
  if whole.isEmpty ∨ whole.head? = some '0' ∧ 1 < whole.length then none
  else
    let (fraction, s) ← fraction? (s.dropWhile Char.isDigit)
    let (exponent, s) ← exponent? s
    return (Nat.ofDigitChars 10 (whole ++ fraction) 0, exponent - fraction.length, s)

def number? : List Char → Option (Json × List Char)
  | '-' :: s => (unsigned? s).map fun (n, exponent, rest) => (.number (-(n : Int)) exponent, rest)
  | s => (unsigned? s).map fun (n, exponent, rest) => (.number n exponent, rest)

def isJsonBlank (c : Char) : Bool :=
  c == ' ' || c == '\t' || c == '\n' || c == '\r'

def skipBlanks (s : List Char) : List Char :=
  s.dropWhile isJsonBlank

section Containers

variable (value? : List Char → Option (Json × List Char))

/-- The items of an array up to its closing bracket, no more than `fuel` of them. -/
def items? : Nat → List Char → Option (List Json × List Char)
  | 0, _ => none
  | fuel + 1, s => do
    let (item, s) ← value? (skipBlanks s)
    match skipBlanks s with
    | ',' :: s => do
      let (more, s) ← items? fuel s
      return (item :: more, s)
    | ']' :: s => return ([item], s)
    | _ => none

/-- The members of an object up to its closing brace, no more than `fuel` of them. -/
def members? : Nat → List Char → Option (List (List Char × Json) × List Char)
  | 0, _ => none
  | fuel + 1, s => do
    let (name, s) ← stringBody? (← expect? ['"'] (skipBlanks s))
    let (item, s) ← value? (skipBlanks (← expect? [':'] (skipBlanks s)))
    match skipBlanks s with
    | ',' :: s => do
      let (more, s) ← members? fuel s
      return ((name, item) :: more, s)
    | '\x7d' :: s => return ([(name, item)], s)
    | _ => none

end Containers

/-- The value at the front of a text, with others in it up to a depth, and what follows it. -/
def jsonValue? : Nat → List Char → Option (Json × List Char)
  | _, '"' :: s => (stringBody? s).map fun (text, rest) => (.text text, rest)
  | _, 'n' :: s => (expect? "ull".toList s).map (.null, ·)
  | _, 't' :: s => (expect? "rue".toList s).map (.truth true, ·)
  | _, 'f' :: s => (expect? "alse".toList s).map (.truth false, ·)
  | depth + 1, '[' :: s =>
    match skipBlanks s with
    | ']' :: rest => some (.array [], rest)
    | s => (items? (jsonValue? depth) s.length s).map fun (items, rest) => (.array items, rest)
  | depth + 1, '\x7b' :: s =>
    match skipBlanks s with
    | '\x7d' :: rest => some (.object [], rest)
    | s => (members? (jsonValue? depth) s.length s).map fun (members, rest) => (.object members, rest)
  | _, s => number? s

/-- How deep values may stand in each other. -/
def maxNesting : Nat := 127

/-- The value of a text that holds one value and blanks. -/
def readJson? (text : List Char) : Option Json := do
  let (value, rest) ← jsonValue? maxNesting (skipBlanks text)
  if (skipBlanks rest).isEmpty then some value else none

/-! ### Reading strings back -/

theorem stringBody?_quote (rest : List Char) : stringBody? ('"' :: rest) = some ([], rest) := by
  rw [stringBody?, if_pos rfl]

theorem stringBody?_escape {text rest : List Char} {c : Char}
    (h : jsonEscape? text = some (c, rest)) :
    stringBody? ('\\' :: text) = (stringBody? rest).map fun (s, after) => (c :: s, after) := by
  rw [stringBody?, if_neg (by decide), if_neg (by decide), if_pos rfl]
  split
  · next hnone => simp [h] at hnone
  · next hsome =>
    rw [h] at hsome
    cases hsome
    rfl

theorem stringBody?_plain {c : Char} (hquote : c ≠ '"') (hcontrol : ¬c.toNat < 0x20)
    (hslash : c ≠ '\\') (text : List Char) :
    stringBody? (c :: text) = (stringBody? text).map fun (s, after) => (c :: s, after) := by
  rw [stringBody?, if_neg hquote, if_neg hcontrol, if_neg hslash]

/-- A control character is read back from its code. -/
theorem jsonEscape?_hexPair {c : Char} (h : c.toNat < 0x20) (rest : List Char) :
    jsonEscape? ('u' :: '0' :: '0' :: (hexPair c.toNat ++ rest)) = some (c, rest) := by
  have hall : (List.range 0x20).all fun n =>
      (['0', '0'] ++ hexPair n).all isHexadecimal ∧
        (['0', '0'] ++ hexPair n).foldl (fun n digit => 16 * n + digitValue digit) 0 = n ∧
          n.isValidChar := by decide
  obtain ⟨hhex, hvalue, hvalid⟩ :=
    of_decide_eq_true (List.all_eq_true.1 hall c.toNat (List.mem_range.2 h))
  simp only [hexPair, List.cons_append, List.nil_append] at hhex hvalue ⊢
  rw [jsonEscape?, codeUnit?, if_pos hhex, hvalue]
  simp only [Option.bind_eq_bind, Option.bind_some, if_pos hvalid, Char.ofNat_toNat]

/-- A character as it is written in a string reads back. -/
theorem stringBody?_escapeJsonChar (c : Char) (rest : List Char) :
    stringBody? (escapeJsonChar c ++ rest) =
      (stringBody? rest).map fun (s, after) => (c :: s, after) := by
  rw [escapeJsonChar]
  split_ifs with hquote hslash hb hf hn hr ht hcontrol
  · subst hquote
    exact stringBody?_escape rfl
  · subst hslash
    exact stringBody?_escape rfl
  · subst hb
    exact stringBody?_escape rfl
  · subst hf
    exact stringBody?_escape rfl
  · subst hn
    exact stringBody?_escape rfl
  · subst hr
    exact stringBody?_escape rfl
  · subst ht
    exact stringBody?_escape rfl
  · exact stringBody?_escape (jsonEscape?_hexPair hcontrol rest)
  · exact stringBody?_plain hquote hcontrol hslash rest

theorem stringBody?_flatMap (s rest : List Char) :
    stringBody? (s.flatMap escapeJsonChar ++ '"' :: rest) = some (s, rest) := by
  induction s with
  | nil => exact stringBody?_quote rest
  | cons c s ih =>
    rw [List.flatMap_cons, List.append_assoc, stringBody?_escapeJsonChar, ih]
    rfl

/-! ### Reading fields back -/

/-- What the value of a field stands for. -/
def JsonValue.json : JsonValue → Json
  | text s => .text s
  | number n => .number n 0
  | truth b => .truth b

/-- The rest of a text goes on with a comma or a brace, so that no number extends into it. -/
def EndsField (rest : List Char) : Prop :=
  ∃ c after, rest = c :: after ∧ (c = ',' ∨ c = '\x7d')

theorem endsField_cons {c : Char} (h : c = ',' ∨ c = '\x7d') (rest : List Char) :
    EndsField (c :: rest) :=
  ⟨c, rest, rfl, h⟩

theorem unsigned?_toDigits (n : Nat) {rest : List Char} (hrest : EndsField rest) :
    unsigned? (Nat.toDigits 10 n ++ rest) = some (n, 0, rest) := by
  obtain ⟨c, after, rfl, hc⟩ := hrest
  have hdigits : ∀ d ∈ Nat.toDigits 10 n, d.isDigit = true := fun d hd =>
    Nat.isDigit_of_mem_toDigits (by decide) (by decide) hd
  have hstop : c.isDigit = false ∧ c ≠ '.' ∧ c ≠ 'e' ∧ c ≠ 'E' := by
    rcases hc with rfl | rfl <;> decide
  have htake : (Nat.toDigits 10 n ++ c :: after).takeWhile Char.isDigit = Nat.toDigits 10 n := by
    rw [List.takeWhile_append_of_pos hdigits, List.takeWhile_cons_of_neg (by simp [hstop.1]),
      List.append_nil]
  have hdrop : (Nat.toDigits 10 n ++ c :: after).dropWhile Char.isDigit = c :: after := by
    rw [List.dropWhile_append_of_pos hdigits, List.dropWhile_cons_of_neg (by simp [hstop.1])]
  have hfront : ¬((Nat.toDigits 10 n).isEmpty = true ∨
      (Nat.toDigits 10 n).head? = some '0' ∧ 1 < (Nat.toDigits 10 n).length) := by
    rintro (hempty | ⟨hzero, hlength⟩)
    · exact Nat.toDigits_ne_nil (List.isEmpty_iff.1 hempty)
    · by_cases hn : n = 0
      · subst hn
        exact absurd hlength (by decide)
      · exact head?_toDigits_ne hn hzero
  have hfraction : fraction? (c :: after) = some ([], c :: after) := by
    rw [fraction?]
    rintro s heq
    exact hstop.2.1 (List.cons.inj heq).1
  have hexponent : exponent? (c :: after) = some (0, c :: after) := by
    rw [exponent?, if_neg (by simp [hstop.2.2.1, hstop.2.2.2])]
  simp only [unsigned?, htake, hdrop]
  rw [if_neg hfront, hfraction]
  simp [hexponent, Nat.ofDigitChars_ten_toDigits]

/-- What begins with a digit is a number without a sign. -/
theorem jsonValue?_of_isDigit {c : Char} (hc : c.isDigit = true) (depth : Nat) (s : List Char) :
    jsonValue? depth (c :: s) =
      (unsigned? (c :: s)).map fun (n, exponent, rest) => (.number n exponent, rest) := by
  have hother {d : Char} {t : List Char} (hd : d.isDigit = false) (heq : c :: s = d :: t) : False := by
    rw [(List.cons.inj heq).1, hd] at hc
    cases hc
  have hnumber : number? (c :: s) =
      (unsigned? (c :: s)).map fun (n, exponent, rest) => (.number n exponent, rest) := by
    rw [number?.eq_def]
    split
    · next heq => exact (hother (by decide) heq).elim
    · rfl
  rw [jsonValue?.eq_def]
  split
  · next heq => exact (hother (by decide) heq).elim
  · next heq => exact (hother (by decide) heq).elim
  · next heq => exact (hother (by decide) heq).elim
  · next heq => exact (hother (by decide) heq).elim
  · next heq => exact (hother (by decide) heq).elim
  · next heq => exact (hother (by decide) heq).elim
  · exact hnumber

/-- The value of a field is read back. -/
theorem jsonValue?_render (value : JsonValue) (depth : Nat) {rest : List Char}
    (hrest : EndsField rest) :
    jsonValue? depth (value.render ++ rest) = some (value.json, rest) := by
  cases value with
  | text s =>
    simp only [JsonValue.render, jsonString, List.cons_append, List.append_assoc, List.nil_append]
    rw [jsonValue?, stringBody?_flatMap]
    rfl
  | number n =>
    have hnumber := unsigned?_toDigits n hrest
    rw [JsonValue.render]
    cases hdigits : Nat.toDigits 10 n with
    | nil => exact absurd hdigits Nat.toDigits_ne_nil
    | cons c digits =>
      have hc : c.isDigit = true :=
        Nat.isDigit_of_mem_toDigits (by decide) (by decide) (hdigits ▸ List.mem_cons_self)
      rw [hdigits] at hnumber
      rw [List.cons_append] at hnumber ⊢
      rw [jsonValue?_of_isDigit hc, hnumber]
      rfl
  | truth b =>
    cases b with
    | true =>
      have hword : (JsonValue.truth true).render = 't' :: "rue".toList := by decide
      rw [hword, List.cons_append, jsonValue?, expect?_append]
      rfl
    | false =>
      have hword : (JsonValue.truth false).render = 'f' :: "alse".toList := by decide
      rw [hword, List.cons_append, jsonValue?, expect?_append]
      rfl

theorem skipBlanks_cons {c : Char} (hc : isJsonBlank c = false) (s : List Char) :
    skipBlanks (c :: s) = c :: s :=
  List.dropWhile_cons_of_neg (by simp [hc])

theorem isJsonBlank_of_isDigit {c : Char} (hc : c.isDigit = true) : isJsonBlank c = false := by
  rw [← Bool.not_eq_true]
  intro hblank
  simp only [isJsonBlank, Bool.or_eq_true, beq_iff_eq] at hblank
  rcases hblank with ((rfl | rfl) | rfl) | rfl <;> exact absurd hc (by decide)

/-- No value begins with a blank. -/
theorem skipBlanks_render (value : JsonValue) (rest : List Char) :
    skipBlanks (value.render ++ rest) = value.render ++ rest := by
  cases value with
  | text s => exact skipBlanks_cons (by decide) _
  | number n =>
    rw [JsonValue.render]
    cases hdigits : Nat.toDigits 10 n with
    | nil => exact absurd hdigits Nat.toDigits_ne_nil
    | cons c digits =>
      have hc : c.isDigit = true :=
        Nat.isDigit_of_mem_toDigits (by decide) (by decide) (hdigits ▸ List.mem_cons_self)
      exact skipBlanks_cons (isJsonBlank_of_isDigit hc) _
  | truth b =>
    cases b with
    | true =>
      have hword : (JsonValue.truth true).render = 't' :: "rue".toList := by decide
      rw [hword]
      exact skipBlanks_cons (by decide) _
    | false =>
      have hword : (JsonValue.truth false).render = 'f' :: "alse".toList := by decide
      rw [hword]
      exact skipBlanks_cons (by decide) _

/-- The member that a field stands for. -/
def member (field : String × JsonValue) : List Char × Json :=
  (field.1.toList, field.2.json)

theorem renderFields_cons_cons (field next : String × JsonValue)
    (more : List (String × JsonValue)) :
    renderFields (field :: next :: more) =
      renderFields [field] ++ ',' :: renderFields (next :: more) := by
  simp [renderFields]

theorem expect?_skipBlanks {c : Char} (hc : isJsonBlank c = false) (s : List Char) :
    expect? [c] (skipBlanks (c :: s)) = some s := by
  rw [skipBlanks_cons hc]
  exact expect?_append [c] s

theorem members?_comma (depth fuel : Nat) (field : String × JsonValue) (rest : List Char) :
    members? (jsonValue? depth) (fuel + 1) (renderFields [field] ++ ',' :: rest) =
      (members? (jsonValue? depth) fuel rest).map fun (more, s) => (member field :: more, s) := by
  have hvalue := jsonValue?_render field.2 depth (endsField_cons (.inl rfl) rest)
  simp only [renderFields, jsonString, List.cons_append, List.append_assoc, List.nil_append,
    members?, expect?_skipBlanks (show isJsonBlank '"' = false by decide), stringBody?_flatMap,
    expect?_skipBlanks (show isJsonBlank ':' = false by decide), skipBlanks_render, hvalue,
    skipBlanks_cons (show isJsonBlank ',' = false by decide), Option.bind_eq_bind,
    Option.bind_some]
  rw [Option.map_eq_bind]
  rfl

theorem members?_brace (depth fuel : Nat) (field : String × JsonValue) (rest : List Char) :
    members? (jsonValue? depth) (fuel + 1) (renderFields [field] ++ '\x7d' :: rest) =
      some ([member field], rest) := by
  have hvalue := jsonValue?_render field.2 depth (endsField_cons (.inr rfl) rest)
  simp only [renderFields, jsonString, List.cons_append, List.append_assoc, List.nil_append,
    members?, expect?_skipBlanks (show isJsonBlank '"' = false by decide), stringBody?_flatMap,
    expect?_skipBlanks (show isJsonBlank ':' = false by decide), skipBlanks_render, hvalue,
    skipBlanks_cons (show isJsonBlank '\x7d' = false by decide), Option.bind_eq_bind,
    Option.bind_some]
  rfl

/-- Fields up to the closing brace are read back. -/
theorem members?_renderFields (depth : Nat) {fields : List (String × JsonValue)} (hne : fields ≠ [])
    {fuel : Nat} (hfuel : fields.length ≤ fuel) (rest : List Char) :
    members? (jsonValue? depth) fuel (renderFields fields ++ '\x7d' :: rest) =
      some (fields.map member, rest) := by
  induction fields generalizing fuel with
  | nil => exact absurd rfl hne
  | cons field more ih =>
    obtain ⟨fuel, rfl⟩ : ∃ n, fuel = n + 1 := Nat.exists_eq_add_one.2 (by
      rw [List.length_cons] at hfuel
      omega)
    cases more with
    | nil => exact members?_brace depth fuel field rest
    | cons next more =>
      have hmore := ih (List.cons_ne_nil next more) (Nat.le_of_succ_le_succ hfuel)
      rw [renderFields_cons_cons, List.append_assoc, List.cons_append, members?_comma, hmore]
      rfl

theorem length_le_length_renderFields (fields : List (String × JsonValue)) :
    fields.length ≤ (renderFields fields).length := by
  induction fields with
  | nil => simp
  | cons field more ih =>
    cases more with
    | nil => simp [renderFields, jsonString]
    | cons next more =>
      rw [renderFields_cons_cons, List.length_append, List.length_cons, List.length_cons]
      exact Nat.le_trans (Nat.succ_le_succ ih) (Nat.le_add_left _ _)

/-- An object is read back, whatever follows it. -/
theorem jsonValue?_object (depth : Nat) (fields : List (String × JsonValue)) (rest : List Char) :
    jsonValue? (depth + 1) ('\x7b' :: (renderFields fields ++ '\x7d' :: rest)) =
      some (.object (fields.map member), rest) := by
  cases fields with
  | nil => rfl
  | cons field more =>
    obtain ⟨s, hs⟩ : ∃ s, renderFields (field :: more) ++ '\x7d' :: rest = '"' :: s := by
      cases more <;> exact ⟨_, rfl⟩
    have hfuel : (field :: more).length ≤ ('"' :: s).length := by
      rw [← hs, List.length_append]
      exact Nat.le_trans (length_le_length_renderFields _) (Nat.le_add_right _ _)
    have hmembers := members?_renderFields depth (List.cons_ne_nil field more) hfuel rest
    rw [hs] at hmembers ⊢
    rw [jsonValue?, skipBlanks_cons (by decide)]
    change (members? (jsonValue? depth) ('"' :: s).length ('"' :: s)).map
      (fun read => (Json.object read.1, read.2)) = _
    rw [hmembers]
    rfl

/-- A line of fields is read back as an object with just these members. -/
theorem readJson?_jsonLine (fields : List (String × JsonValue)) :
    readJson? (jsonLine fields) = some (.object (fields.map member)) := by
  have hobject : jsonValue? maxNesting (skipBlanks (jsonLine fields)) =
      some (.object (fields.map member), ['\n']) := by
    rw [jsonLine, List.cons_append, skipBlanks_cons (by decide)]
    exact jsonValue?_object (maxNesting - 1) fields ['\n']
  rw [readJson?, hobject]
  rfl

end AssetBake.Report
