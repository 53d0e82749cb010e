import AssetBake.Toml.Value

/-!
# TOML scalars

Strings with their escapes, and the values that are written without quotation marks: truth values,
numbers, dates and times. Each reader of a string gives its content and what follows it.
-/

namespace AssetBake.Toml

/-! ### Characters -/

def isWs (c : Char) : Bool :=
  c == ' ' || c == '\t'

/-- A character that may stand in a comment and, the quotation marks and the backslash apart, in
strings of one line. -/
def isLineChar (c : Char) : Bool :=
  c == '\t' || (0x20 ≤ c.toNat && c.toNat != 0x7f)

def hexValue? (c : Char) : Option Nat :=
  if c.isDigit then some (c.toNat - 48)
  else if 'a' ≤ c && c ≤ 'f' then some (c.toNat - 87)
  else if 'A' ≤ c && c ≤ 'F' then some (c.toNat - 55)
  else none

/-- The number that digits of a base stand for. -/
def ofDigits (base : Nat) (digits : List Char) : Nat :=
  digits.foldl (fun n c => n * base + (hexValue? c).getD 0) 0

/-- The character with a code point in hexadecimal digits. -/
def unicodeChar? (digits : List Char) : Option Char :=
  if digits.all fun c => (hexValue? c).isSome then
    let n := ofDigits 16 digits
    if n.isValidChar then some (Char.ofNat n) else none
  else none

/-- What a backslash and this character stand for. -/
def simpleEscape? (c : Char) : Option Char :=
  match c with
  | 'b' => some '\x08'
  | 't' => some '\t'
  | 'n' => some '\n'
  | 'f' => some '\x0c'
  | 'r' => some '\r'
  | '"' => some '"'
  | '\\' => some '\\'
  | _ => none

/-- A content with one more character in front. -/
def more (c : Char) (read : Option (List Char × List Char)) : Option (List Char × List Char) :=
  read.map fun (content, rest) => (c :: content, rest)

/-! ### Strings -/

/-- The content of a string between double quotes, from behind the first one. -/
def basicString : List Char → Option (List Char × List Char)
  | [] => none
  | '"' :: rest => some ([], rest)
  | '\\' :: 'u' :: a :: b :: c :: d :: rest =>
    match unicodeChar? [a, b, c, d] with
    | some u => more u (basicString rest)
    | none => none
  | '\\' :: 'U' :: a :: b :: c :: d :: e :: f :: g :: h :: rest =>
    match unicodeChar? [a, b, c, d, e, f, g, h] with
    | some u => more u (basicString rest)
    | none => none
  | '\\' :: c :: rest =>
    match simpleEscape? c with
    | some u => more u (basicString rest)
    | none => none
  | c :: rest => if isLineChar c && c != '\\' then more c (basicString rest) else none

/-- The content of a string between single quotes, from behind the first one. -/
def literalString : List Char → Option (List Char × List Char)
  | [] => none
  | '\'' :: rest => some ([], rest)
  | c :: rest => if isLineChar c then more c (literalString rest) else none

/-- Where a string of several lines may end: after three quotes, and up to two more before them that
belong to it. Gives the quotes that belong to the string. -/
def longEnd? (mark : Char) (s : List Char) : Option (List Char × List Char) :=
  let quotes := (s.takeWhile (· == mark)).length
  if 3 ≤ quotes then
    let own := min quotes 5 - 3
    some (List.replicate own mark, s.drop (own + 3))
  else none

/-- What a reader of a long string is in the middle of. -/
inductive LongMode
  | text
  /-- Blanks after a backslash, before the line end that has to come. -/
  | folding
  /-- Blanks and line ends after a backslash at a line end. -/
  | folded
deriving DecidableEq

/-- The content of a string between three double quotes, from behind the first line end in it. -/
def longBasicString : LongMode → List Char → Option (List Char × List Char)
  | _, [] => none
  | .folding, c :: rest =>
    if isWs c then longBasicString .folding rest
    else if c = '\n' then longBasicString .folded rest
    else if c = '\r' ∧ rest.head? = some '\n' then longBasicString .folding rest
    else none
  | .folded, c :: rest =>
    if isWs c || c = '\n' then longBasicString .folded rest
    else if c = '\r' ∧ rest.head? = some '\n' then longBasicString .folded rest
    else longText c rest
  | .text, c :: rest => longText c rest
where
  /-- Reads on from a character of the text itself. -/
  longText (c : Char) (rest : List Char) : Option (List Char × List Char) :=
    match c, rest with
    | '\\', 'u' :: a :: b :: c :: d :: rest =>
      match unicodeChar? [a, b, c, d] with
      | some u => more u (longBasicString .text rest)
      | none => none
    | '\\', 'U' :: a :: b :: c :: d :: e :: f :: g :: h :: rest =>
      match unicodeChar? [a, b, c, d, e, f, g, h] with
      | some u => more u (longBasicString .text rest)
      | none => none
    | '\\', c :: rest =>
      match simpleEscape? c with
      | some u => more u (longBasicString .text rest)
      | none => longBasicString .folding (c :: rest)
    | '\r', '\n' :: rest => more '\n' (longBasicString .text rest)
    | c, rest =>
      match if c = '"' then longEnd? '"' (c :: rest) else none with
      | some done => some done
      | none =>
        if (isLineChar c && c != '\\') || c = '\n' then more c (longBasicString .text rest)
        else none

/-- The content of a string between three single quotes, from behind the first line end in it. -/
def longLiteralString : List Char → Option (List Char × List Char)
  | [] => none
  | '\r' :: '\n' :: rest => more '\n' (longLiteralString rest)
  | c :: rest =>
    match if c = '\'' then longEnd? '\'' (c :: rest) else none with
    | some done => some done
    | none => if isLineChar c || c = '\n' then more c (longLiteralString rest) else none

/-- A text without the line end it may begin with. -/
def dropLineEnd : List Char → List Char
  | '\n' :: rest => rest
  | '\r' :: '\n' :: rest => rest
  | s => s

/-- The content of a string that starts here. -/
def readString : List Char → Option (List Char × List Char)
  | '"' :: '"' :: '"' :: rest => longBasicString .text (dropLineEnd rest)
  | '"' :: rest => basicString rest
  | '\'' :: '\'' :: '\'' :: rest => longLiteralString (dropLineEnd rest)
  | '\'' :: rest => literalString rest
  | _ => none

/-! ### Numbers -/

/-- Digits with single underscores between them, without the underscores. -/
def underscored? (isDigit : Char → Bool) : List Char → Option (List Char)
  | [] => none
  | [c] => if isDigit c then some [c] else none
  | c :: '_' :: rest =>
    if isDigit c then (underscored? isDigit rest).map (c :: ·) else none
  | c :: rest => if isDigit c then (underscored? isDigit rest).map (c :: ·) else none

/-- The sign in front of a number, and the rest. -/
def takeSign : List Char → Bool × List Char
  | '-' :: rest => (true, rest)
  | '+' :: rest => (false, rest)
  | s => (false, s)

/-- The digits of a decimal number, which has no zero in front. -/
def plainDecimal? (s : List Char) : Option (List Char) :=
  match underscored? Char.isDigit s with
  | some ('0' :: _ :: _) => none
  | digits => digits

def ofBase? (base : Nat) (isDigit : Char → Bool) (s : List Char) : Option Int :=
  (underscored? isDigit s).map fun digits => (ofDigits base digits : Int)

/-- The number if 64 bits hold it. -/
def inRange? (n : Int) : Option Int :=
  if -0x8000000000000000 ≤ n ∧ n < 0x8000000000000000 then some n else none

def integer? (s : List Char) : Option Int :=
  let value? := match s with
    | '0' :: 'x' :: rest => ofBase? 16 (fun c => (hexValue? c).isSome) rest
    | '0' :: 'o' :: rest => ofBase? 8 (fun c => '0' ≤ c && c ≤ '7') rest
    | '0' :: 'b' :: rest => ofBase? 2 (fun c => c == '0' || c == '1') rest
    | _ =>
      let (negative, body) := takeSign s
      (plainDecimal? body).map fun digits =>
        if negative then -(ofDigits 10 digits : Int) else ofDigits 10 digits
  value?.bind inRange?

def exponent? (s : List Char) : Option Int :=
  let (negative, body) := takeSign s
  (underscored? Char.isDigit body).map fun digits =>
    if negative then -(ofDigits 10 digits : Int) else ofDigits 10 digits

/-- A number with a fraction or an exponent; one that is too large is refused. -/
def decimalFloat? (s : List Char) : Option Binary64 := do
  let (negative, body) := takeSign s
  let isExponent (c : Char) : Bool := c == 'e' || c == 'E'
  let mantissa := body.takeWhile fun c => !isExponent c
  let exponent ← match body.dropWhile fun c => !isExponent c with
    | [] => some 0
    | _ :: rest => exponent? rest
  let whole ← plainDecimal? (mantissa.takeWhile (· != '.'))
  let fraction ← match mantissa.dropWhile (· != '.') with
    | [] => some []
    | _ :: rest => underscored? Char.isDigit rest
  if mantissa.length = body.length ∧ fraction.isEmpty then none
  else
    let x := Binary64.ofDecimal negative (ofDigits 10 (whole ++ fraction))
      (exponent - fraction.length)
    if x = .infinite false then none else some x

def float? (s : List Char) : Option Binary64 :=
  let (negative, body) := takeSign s
  if body = "inf".toList then some (.infinite negative)
  else if body = "nan".toList then some .nan
  else decimalFloat? s

/-! ### Dates and times -/

/-- The number that exactly `count` digits stand for, and what follows them. -/
def fixedNumber? (count : Nat) (s : List Char) : Option (Nat × List Char) :=
  let digits := s.take count
  if digits.length = count ∧ digits.all Char.isDigit then
    some (ofDigits 10 digits, s.drop count)
  else none

/-- What follows a character that has to come first. -/
def afterChar? (c : Char) : List Char → Option (List Char)
  | [] => none
  | d :: rest => if c = d then some rest else none

def isLeapYear (year : Nat) : Bool :=
  (year % 4 == 0 && year % 100 != 0) || year % 400 == 0

def daysInMonth (year month : Nat) : Nat :=
  if month = 2 then if isLeapYear year then 29 else 28
  else if month = 4 ∨ month = 6 ∨ month = 9 ∨ month = 11 then 30
  else 31

def afterDate? (s : List Char) : Option (List Char) := do
  let (year, s) ← fixedNumber? 4 s
  let (month, s) ← fixedNumber? 2 (← afterChar? '-' s)
  let (day, s) ← fixedNumber? 2 (← afterChar? '-' s)
  if 1 ≤ month ∧ month ≤ 12 ∧ 1 ≤ day ∧ day ≤ daysInMonth year month then some s else none

def afterMinutes? (s : List Char) : Option (List Char) := do
  let (hour, s) ← fixedNumber? 2 s
  let (minute, s) ← fixedNumber? 2 (← afterChar? ':' s)
  if hour ≤ 23 ∧ minute ≤ 59 then some s else none

/-- What follows a time; the sixtieth second is that of a leap. -/
def afterTime? (s : List Char) : Option (List Char) := do
  let s ← afterMinutes? s
  let (second, s) ← fixedNumber? 2 (← afterChar? ':' s)
  if 60 < second then none
  else
    match s with
    | '.' :: rest =>
      if (rest.takeWhile Char.isDigit).isEmpty then none else some (rest.dropWhile Char.isDigit)
    | _ => some s

/-- Whether a text is the distance from universal time, or nothing. -/
def isOffset (s : List Char) : Bool :=
  match s with
  | [] => true
  | ['Z'] => true
  | ['z'] => true
  | c :: rest => (c == '+' || c == '-') && afterMinutes? rest == some []

/-- Whether a text is a date, a time or both. -/
def isMoment (s : List Char) : Bool :=
  match afterDate? s with
  | some [] => true
  | some (c :: rest) =>
    (c == 'T' || c == 't' || c == ' ') && (afterTime? rest).any isOffset
  | none => afterTime? s == some []

/-- A character of a value without quotation marks. -/
def isBareChar (c : Char) : Bool :=
  c.isAlphanum || c == '_' || c == '+' || c == '-' || c == '.' || c == ':'

/-- The text of a value without quotation marks, and what follows it. A date may be followed by a
space and a time. -/
def takeBare (s : List Char) : List Char × List Char :=
  let first := s.takeWhile isBareChar
  match s.dropWhile isBareChar with
  | ' ' :: c :: rest =>
    if c.isDigit && afterDate? first == some [] then
      (first ++ ' ' :: (c :: rest).takeWhile isBareChar, (c :: rest).dropWhile isBareChar)
    else (first, ' ' :: c :: rest)
  | rest => (first, rest)

/-- The value of a text without quotation marks. -/
def bareItem? (span : Span) (s : List Char) : Option Item :=
  if s = "true".toList then some (.boolean span true)
  else if s = "false".toList then some (.boolean span false)
  else if isMoment s then some (.moment span s)
  else
    match integer? s with
    | some n => some (.integer span n)
    | none => (float? s).map (.float span)

end AssetBake.Toml
