import AssetBake.Failure
import AssetBake.Text.Lines
import AssetBake.Text.Quoted

/-!
# String literals

Two ways to write a text as a C++ literal: raw, between a delimiter that must not end the text
early, and escaped, one adjacent literal for each line.
-/

namespace AssetBake

open Text

inductive Strategy
  | raw
  | escaped
deriving DecidableEq, Inhabited

namespace Literal

/-- The longest delimiter that the language allows. -/
def maxDelimiterSize : Nat := 16

inductive DelimiterFault
  | tooLong (delimiter : List Char)
  | badCharacter (delimiter : List Char) (c : Char)
deriving DecidableEq

def DelimiterFault.message : DelimiterFault → String
  | tooLong delimiter =>
    "delimiter '" ++ String.ofList delimiter ++ "' is longer than " ++ toString maxDelimiterSize ++
      " characters"
  | badCharacter delimiter c =>
    "delimiter '" ++ String.ofList delimiter ++ "' contains " ++ quoteChar c ++
      ", which is not allowed in a raw string delimiter"

/-- The visible characters of ASCII. -/
def isGraphic (c : Char) : Bool :=
  '!' ≤ c && c ≤ '~'

def isDelimiterChar (c : Char) : Bool :=
  isGraphic c && c != '(' && c != ')' && c != '\\' && c != '"'

/-- Accepts a delimiter that can open a raw literal. -/
def checkDelimiter (delimiter : List Char) : Except DelimiterFault Unit :=
  if maxDelimiterSize < Utf8.byteSize delimiter then .error (.tooLong delimiter)
  else
    match delimiter.find? fun c => !isDelimiterChar c with
    | some c => .error (.badCharacter delimiter c)
    | none => .ok ()

/-- What ends a raw literal with the delimiter. -/
def terminator (delimiter : List Char) : List Char :=
  ')' :: delimiter ++ ['"']

/-- The text as a raw literal, if nothing in it ends the literal. -/
def raw (delimiter content : List Char) : List Char :=
  'R' :: '"' :: delimiter ++ '(' :: content ++ terminator delimiter

/-- Three octal digits. -/
def octal (n : Nat) : List Char :=
  [Nat.digitChar (n / 64 % 8), Nat.digitChar (n / 8 % 8), Nat.digitChar (n % 8)]

def isControl (c : Char) : Bool :=
  c.toNat < 0x20 || c.toNat == 0x7f

/-- How a character stands between double quotes, after a question mark or after anything else. A
question mark after another is escaped, so that no trigraph can form. -/
def escapedChar (afterQuestion : Bool) (c : Char) : List Char :=
  if c = '\\' then ['\\', '\\']
  else if c = '"' then ['\\', '"']
  else if c = '\n' then ['\\', 'n']
  else if c = '\t' then ['\\', 't']
  else if c = '\r' then ['\\', 'r']
  else if c = '?' && afterQuestion then ['\\', '?']
  else if isControl c then '\\' :: octal c.toNat
  else [c]

/-- The characters as they stand between double quotes, after a question mark or after anything
else. -/
def escapeAfter (afterQuestion : Bool) : List Char → List Char
  | [] => []
  | c :: rest => escapedChar afterQuestion c ++ escapeAfter (c == '?') rest

/-- The text as it stands between double quotes. -/
def escape (content : List Char) : List Char :=
  escapeAfter false content

/-- The text as a literal with double quotes. -/
def quoted (content : List Char) : List Char :=
  '"' :: escape content ++ ['"']

/-- The text as adjacent literals, one a line, each but the first after a newline and `indent`. -/
def escaped (indent content : List Char) : List Char :=
  match newlinePieces content with
  | [] => quoted []
  | lines => ('\n' :: indent).intercalate (lines.map quoted)

/-- Whether one sequence stands somewhere in another. -/
def occursIn (needle : List Char) : List Char → Bool
  | [] => needle.isEmpty
  | c :: rest => needle.isPrefixOf (c :: rest) || occursIn needle rest

inductive ContentFault
  | nul
  | carriageReturn
  | terminator (t : List Char)
deriving DecidableEq

/-- The failure of a run that meets the fault in a file. -/
def ContentFault.failure (path : Path) : ContentFault → Failure
  | nul =>
    .unsupportedContent path
      "contains a NUL character, which a `const char *` value cannot hold"
  | carriageReturn =>
    .unsupportedContent path
      ("contains a carriage return, which raw string literals do not preserve; " ++
        "use strategy = \"escaped\"")
  | terminator t => .unsafeDelimiterCollision path (String.ofList t)

end Literal

open Literal

structure LiteralStyle where
  strategy : Strategy
  delimiter : List Char
deriving DecidableEq

namespace LiteralStyle

/-- Raw literals between `__DELIM__`. -/
def standard : LiteralStyle :=
  ⟨.raw, "__DELIM__".toList⟩

/-- Accepts a text that can be written so that it reads back. -/
def check (style : LiteralStyle) (content : List Char) : Except ContentFault Unit :=
  if content.contains '\x00' then .error .nul
  else
    match style.strategy with
    | .escaped => .ok ()
    | .raw =>
      if content.contains '\r' then .error .carriageReturn
      else if occursIn (terminator style.delimiter) content then
        .error (.terminator (terminator style.delimiter))
      else .ok ()

/-- The text as a literal, if it can be written so that it reads back. -/
def render (style : LiteralStyle) (indent content : List Char) :
    Except ContentFault (List Char) := do
  style.check content
  match style.strategy with
  | .raw => return raw style.delimiter content
  | .escaped => return escaped indent content

end LiteralStyle

end AssetBake
