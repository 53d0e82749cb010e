import AssetBake.Diff.Hunk
import AssetBake.Terminal
import AssetBake.Text.Blank
import AssetBake.Text.Lines

/-!
# Unified diffs

Two texts compared line by line and shown as hunks: a header with the line numbers of both sides, then
each line with a sign in front.
-/

namespace AssetBake.Diff

open Text Terminal

/-- A range of lines in a hunk header: where it starts, counted from one, and its length unless that
is one. An empty range stands after the line it is counted from. -/
def rangeText (first last : Nat) : String :=
  let length := last - first
  if length = 1 then toString (first + 1)
  else if length = 0 then toString first ++ ",0"
  else toString (first + 1) ++ "," ++ toString length

def hunkHeader (hunk : List Edit) : String :=
  let oldFirst := (hunk.head?.map Edit.oldStart).getD 0
  let newFirst := (hunk.head?.map Edit.newStart).getD 0
  let oldLast := (hunk.getLast?.map Edit.oldEnd).getD 0
  let newLast := (hunk.getLast?.map Edit.newEnd).getD 0
  "@@ -" ++ rangeText oldFirst oldLast ++ " +" ++ rangeText newFirst newLast ++ " @@"

/-- A line with its sign, without the newline that ends it. -/
def signed (hasColor : Bool) (color : Color) (sign : Char) (line : List Char) : String :=
  paint hasColor color (String.ofList (sign :: dropEndWhile (· == '\n') line))

def editLines (hasColor : Bool) (old new : Array (List Char)) : Edit → List String
  | .keep first _ length =>
    (slice old first (first + length)).map (signed hasColor .dim ' ')
  | .change first length newFirst newLength =>
    (slice old first (first + length)).map (signed hasColor .error '-') ++
      (slice new newFirst (newFirst + newLength)).map (signed hasColor .success '+')

def hunkLines (hasColor : Bool) (old new : Array (List Char)) (hunk : List Edit) : List String :=
  paint hasColor .dim (hunkHeader hunk) :: hunk.flatMap (editLines hasColor old new)

/-- The diff of two texts of one file, with some lines of context around each change. -/
def unified (path old new : String) (context : Nat) (hasColor : Bool) : String :=
  let oldLines := endedLines old.toList
  let newLines := endedLines new.toList
  let runs := compact oldLines.toArray newLines.toArray (script oldLines newLines)
  let lines :=
    [paint hasColor .info ("--- a/" ++ path), paint hasColor .info ("+++ b/" ++ path)] ++
      (hunks context (edits runs)).flatMap (hunkLines hasColor oldLines.toArray newLines.toArray)
  String.join (lines.map (· ++ "\n"))

end AssetBake.Diff
