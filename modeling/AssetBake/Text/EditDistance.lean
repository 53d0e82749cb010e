/-!
# Edit distance

The least number of insertions, deletions and substitutions of one element that turn one sequence
into another, computed row by row.
-/

namespace AssetBake.Text

variable {α : Type} [DecidableEq α]

/-- The rest of a row of the distance table. `diagonal` and `left` are the entries beside the next
one to fill, `above` the row before from there on. -/
def nextRow (a : α) (diagonal left : Nat) : List α → List Nat → List Nat
  | b :: bs, up :: above =>
    let substituted := diagonal + if a = b then 0 else 1
    let entry := min (min substituted (left + 1)) (up + 1)
    entry :: nextRow a up entry bs above
  | _, _ => []

/-- One row of the distance table from the row before. -/
def distanceRow (b : List α) (row : List Nat) (a : α) : List Nat :=
  match row with
  | [] => []
  | corner :: above => (corner + 1) :: nextRow a corner (corner + 1) b above

def editDistance (a b : List α) : Nat :=
  (a.foldl (distanceRow b) (List.range (b.length + 1))).getLastD 0

end AssetBake.Text
