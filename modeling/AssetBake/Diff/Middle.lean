/-!
# The middle of two sequences

Where a shortest edit from one sequence to another can be cut in two. A search from both ends follows,
for growing numbers of edits, the paths that reach farthest on each diagonal, until a path from the
front meets one from the back.
-/

namespace AssetBake.Diff

variable {α : Type} [DecidableEq α]

/-- How far the paths from one end have come, by diagonal. -/
structure Front where
  cells : Array Nat
  /-- The cell of diagonal zero. -/
  offset : Nat

namespace Front

/-- The front before the first edit, with room for `limit` edits. -/
def start (limit : Nat) : Front :=
  ⟨Array.replicate (2 * limit + 2) 0, limit⟩

def get (front : Front) (k : Int) : Nat :=
  (front.cells[(k + front.offset).toNat]?).getD 0

def set (front : Front) (k : Int) (x : Nat) : Front :=
  ⟨front.cells.setIfInBounds (k + front.offset).toNat x, front.offset⟩

/-- Where the next edit on diagonal `k` leads when `d` edits have been made: down from the
diagonal above, or right from the one below, whichever is farther. -/
def advance (front : Front) (d k : Int) : Nat :=
  if k = -d ∨ (k ≠ d ∧ front.get (k - 1) < front.get (k + 1)) then front.get (k + 1)
  else front.get (k - 1) + 1

end Front

/-- The number of elements that two sequences share from the positions on; looks at no more than
`limit` of them. -/
def sharedFrom (a b : Array α) (i j : Nat) : Nat → Nat
  | 0 => 0
  | limit + 1 =>
    match a[i]?, b[j]? with
    | some x, some y => if x = y then sharedFrom a b (i + 1) (j + 1) limit + 1 else 0
    | _, _ => 0

/-- The diagonals that `d` edits can reach, from the highest down. -/
def diagonals (d : Nat) : List Int :=
  (List.range (d + 1)).map fun (i : Nat) => (d : Int) - 2 * (i : Int)

/-- One round of the search from one end over the given diagonals. `meets k x` tells whether a path
that has come to `x` on diagonal `k` meets one from the other end; then the points before and after
its last run of shared elements are given back. -/
def round (a b : Array α) (meets : Int → Nat → Bool) (d : Nat) (front : Front) :
    List Int → Front × Option ((Nat × Nat) × (Nat × Nat))
  | [] => (front, none)
  | k :: rest =>
    let x := front.advance d k
    let y := ((x : Int) - k).toNat
    let shared := sharedFrom a b x y (min (a.size - x) (b.size - y))
    let next := front.set k (x + shared)
    if meets k (x + shared) then (next, some ((x, y), (x + shared, y + shared)))
    else round a b meets d next rest

/-- Searches with `d` edits from each end, then with more, as long as `rounds` allows. -/
def searchMiddle (a b backA backB : Array α) (d : Nat) (forward backward : Front) :
    Nat → Option (Nat × Nat)
  | 0 => none
  | rounds + 1 =>
    let n := a.size
    let m := b.size
    let delta : Int := n - m
    let odd := delta % 2 ≠ 0
    let meetsBack (k : Int) (x : Nat) : Bool :=
      odd ∧ ((k - delta).natAbs : Int) ≤ (d : Int) - 1 ∧ n ≤ x + backward.get (delta - k)
    match round a b meetsBack d forward (diagonals d) with
    | (_, some (before, _)) => some before
    | (forward, none) =>
      let meetsFront (k : Int) (x : Nat) : Bool :=
        ¬odd ∧ ((k - delta).natAbs : Int) ≤ (d : Int) ∧ n ≤ x + forward.get (delta - k)
      match round backA backB meetsFront d backward (diagonals d) with
      | (_, some (_, (x, y))) => some (n - x, m - y)
      | (backward, none) => searchMiddle a b backA backB (d + 1) forward backward rounds

/-- A point on a shortest edit from `a` to `b`, for sequences that share neither their first nor
their last element. -/
def middle? (a b : List α) : Option (Nat × Nat) :=
  let limit := (a.length + b.length + 1) / 2 + 1
  searchMiddle a.toArray b.toArray a.reverse.toArray b.reverse.toArray 0 (.start limit)
    (.start limit) limit

end AssetBake.Diff
