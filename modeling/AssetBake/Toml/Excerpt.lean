import AssetBake.Text.Utf8
import AssetBake.Toml.Value

/-!
# Excerpts

A fault in a document with the line on which it is found and the place underlined.
-/

namespace AssetBake.Toml

open Text

/-- The characters that begin before a byte, and those from it on. -/
def splitAtByte : Nat → List Char → List Char × List Char
  | _, [] => ([], [])
  | 0, s => ([], s)
  | n, c :: rest =>
    let (before, after) := splitAtByte (n - c.utf8Size) rest
    (c :: before, after)

/-- A cause with the place where it was found. -/
def excerpt (text : List Char) (span : Option Span) (cause : String) : String :=
  match span with
  | none => cause ++ "\n"
  | some span =>
    let before := (splitAtByte span.first text).1
    let line := before.count '\n'
    let column := (before.reverse.takeWhile (· ≠ '\n')).length
    let content := (text.splitOn '\n').getD line []
    let marked := min (span.last - span.first) (Utf8.byteSize content - column)
    let number := toString (line + 1)
    let gutter := String.ofList (List.replicate (number.length + 1) ' ') ++ "|"
    "TOML parse error at line " ++ number ++ ", column " ++ toString (column + 1) ++ "\n" ++
      gutter ++ "\n" ++ number ++ " | " ++ String.ofList content ++ "\n" ++ gutter ++
      String.ofList (List.replicate (column + 1) ' ' ++ List.replicate (max marked 1) '^') ++ "\n" ++
      cause ++ "\n"

end AssetBake.Toml
