import AssetBake.Key
import AssetBake.Literal
import AssetBake.Table

/-!
# The header

A table as one C++ header: a notice, a guard, and the definition of a constant map with one entry
for each asset. The text depends on nothing but the table and the style.
-/

namespace AssetBake

open Text

inductive GuardStyle
  | pragma
  | define
deriving DecidableEq, Inhabited

/-- The name of the map, unless another one is chosen. -/
def defaultTableName : String := "baked_stdlib"

/-- The guard name for a header, from the last name of its path. -/
def guardNameFor (output : Path) : List Char :=
  let name :=
    match output.fileName? with
    | some n => Utf8.decodeLossy n.bytes
    | none => defaultTableName
  let guard := name.toList.map fun c => if c.isAlphanum then c.toUpper else '_'
  if startsWithDigit guard then '_' :: guard else guard

structure HeaderStyle where
  tableName : List Char
  guard : GuardStyle
  /-- The name that guards the header when no pragma does. -/
  guardName : List Char
  literals : LiteralStyle

namespace HeaderStyle

/-- The first line of every header. -/
def notice : String := "// This file was generated by stdbake. DO NOT EDIT."

def entryIndent : String := "    "

/-- What stands before a literal on a line of its own. -/
def continuationIndent : String := "     "

/-- What stands between a key and its literal. -/
def gap (style : HeaderStyle) : List Char :=
  match style.literals.strategy with
  | .raw => " ".toList
  | .escaped => '\n' :: continuationIndent.toList

def entry (style : HeaderStyle) (asset : Asset) : Except Failure (List Char) :=
  match style.literals.render continuationIndent.toList asset.content.toList with
  | .error fault => .error (fault.failure asset.source.relative)
  | .ok literal =>
    .ok (entryIndent.toList ++ "\x7b".toList ++ Literal.quoted asset.key ++ ",".toList ++
      style.gap ++ literal ++ "\x7d,\n".toList)

def guardOpen (style : HeaderStyle) : List Char :=
  match style.guard with
  | .pragma => "#pragma once\n\n".toList
  | .define =>
    "#ifndef ".toList ++ style.guardName ++ "\n#define ".toList ++ style.guardName ++ "\n\n".toList

def guardClose (style : HeaderStyle) : List Char :=
  match style.guard with
  | .pragma => []
  | .define => "\n#endif // ".toList ++ style.guardName ++ "\n".toList

/-- The text from the notice to the name of the map. -/
def front (style : HeaderStyle) (count : Nat) : List Char :=
  notice.toList ++ "\n// Embedded files: ".toList ++ Nat.toDigits 10 count ++ "\n\n".toList ++
    style.guardOpen ++ "#include <map>\n#include <string>\n\n".toList ++
    "inline const std::map<std::string, const char *> ".toList ++ style.tableName

/-- The lines from the notice to the brace that opens the map. -/
def opening (style : HeaderStyle) (count : Nat) : List Char :=
  style.front count ++ " = \x7b\n".toList

/-- The lines after the last entry. -/
def closing (style : HeaderStyle) : List Char :=
  "\x7d;\n".toList ++ style.guardClose

/-- The header of a table; the first text that cannot be written refuses it. -/
def render (style : HeaderStyle) (table : Table) : Except Failure (List Char) := do
  let entries ← table.assets.mapM style.entry
  return style.opening table.size ++ entries.flatten ++ style.closing

end HeaderStyle

end AssetBake
