import AssetBake.Text.Printable
import AssetBake.Text.GraphemeExtend

/-!
# Quoted text

Characters and texts between quotation marks, for messages: short escapes for the common controls,
the code point in braces for every other character that could not be seen or told apart.
-/

namespace AssetBake.Text

def hexDigits (n : Nat) : List Char :=
  Nat.toDigits 16 n

/-- How a character is written inside a pair of `mark`s. -/
def escapeIn (mark c : Char) : List Char :=
  if c = '\x00' then ['\\', '0']
  else if c = '\t' then ['\\', 't']
  else if c = '\r' then ['\\', 'r']
  else if c = '\n' then ['\\', 'n']
  else if c = '\\' || c = mark then ['\\', c]
  else if isGraphemeExtend c || !isPrintable c then
    ['\\', 'u', '\x7b'] ++ hexDigits c.toNat ++ ['\x7d']
  else [c]

def quoteChar (c : Char) : String :=
  String.ofList (['\''] ++ escapeIn '\'' c ++ ['\''])

def quote (text : String) : String :=
  String.ofList (['"'] ++ text.toList.flatMap (escapeIn '"') ++ ['"'])

end AssetBake.Text
