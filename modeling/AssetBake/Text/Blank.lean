/-!
# Blank characters

The characters with the property `White_Space`, and texts without them at their ends.
-/

namespace AssetBake.Text

/-- Whether the character has the property `White_Space`. -/
def isBlank (c : Char) : Bool :=
  let n := c.toNat
  (9 ≤ n && n ≤ 13) || n == 0x20 || n == 0x85 || n == 0xa0 || n == 0x1680 ||
    (0x2000 ≤ n && n ≤ 0x200a) || n == 0x2028 || n == 0x2029 || n == 0x202f || n == 0x205f ||
    n == 0x3000

def trimStart (s : List Char) : List Char :=
  s.dropWhile isBlank

/-- The sequence without the elements at the end that satisfy `drop`. -/
def dropEndWhile {α : Type} (drop : α → Bool) (s : List α) : List α :=
  (s.reverse.dropWhile drop).reverse

def trimEnd (s : List Char) : List Char :=
  dropEndWhile isBlank s

def trim (s : List Char) : List Char :=
  trimEnd (trimStart s)

end AssetBake.Text
