/-!
# JSON lines

Flat JSON objects in compact form, one a line.
-/

namespace AssetBake.Report

inductive JsonValue
  | text (s : List Char)
  | number (n : Nat)
  | truth (b : Bool)
deriving DecidableEq

def hexPair (n : Nat) : List Char :=
  [Nat.digitChar (n / 16), Nat.digitChar (n % 16)]

/-- A character as it stands in a JSON string. -/
def escapeJsonChar (c : Char) : List Char :=
  if c = '"' then ['\\', '"']
  else if c = '\\' then ['\\', '\\']
  else if c = '\x08' then ['\\', 'b']
  else if c = '\x0c' then ['\\', 'f']
  else if c = '\n' then ['\\', 'n']
  else if c = '\r' then ['\\', 'r']
  else if c = '\t' then ['\\', 't']
  else if c.toNat < 0x20 then ['\\', 'u', '0', '0'] ++ hexPair c.toNat
  else [c]

def jsonString (s : List Char) : List Char :=
  '"' :: s.flatMap escapeJsonChar ++ ['"']

def JsonValue.render : JsonValue → List Char
  | text s => jsonString s
  | number n => Nat.toDigits 10 n
  | truth b => if b then "true".toList else "false".toList

/-- The fields with a comma between each two. -/
def renderFields : List (String × JsonValue) → List Char
  | [] => []
  | [(name, value)] => jsonString name.toList ++ ':' :: value.render
  | (name, value) :: rest =>
    jsonString name.toList ++ ':' :: value.render ++ ',' :: renderFields rest

def jsonLine (fields : List (String × JsonValue)) : List Char :=
  '\x7b' :: renderFields fields ++ ['\x7d', '\n']

end AssetBake.Report
