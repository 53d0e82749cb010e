import AssetBake.Diff.Middle

/-!
# Edit scripts

How one sequence becomes another, as runs of kept, deleted and inserted elements. A shortest script is
found by cutting both sequences at a point that it passes, again and again.
-/

namespace AssetBake.Diff

variable {α : Type} [DecidableEq α]

inductive Tag
  | equal
  | delete
  | insert
deriving DecidableEq

/-- A run of elements of one kind, with where it starts in both sequences. -/
structure Run where
  tag : Tag
  old : Nat
  new : Nat
  length : Nat
deriving DecidableEq

namespace Run

def oldEnd (run : Run) : Nat :=
  if run.tag = .insert then run.old else run.old + run.length

def newEnd (run : Run) : Nat :=
  if run.tag = .delete then run.new else run.new + run.length

end Run

def sharedPrefix : List α → List α → Nat
  | a :: as, b :: bs => if a = b then sharedPrefix as bs + 1 else 0
  | _, _ => 0

def sharedSuffix (a b : List α) : Nat :=
  sharedPrefix a.reverse b.reverse

/-- A run of the tag, unless it is empty. -/
def runOf (tag : Tag) (old new length : Nat) : List Run :=
  if length = 0 then [] else [⟨tag, old, new, length⟩]

/-- The script between two sequences that start at the given positions. -/
def scriptAt (old new : Nat) (a b : List α) : List Run :=
  let front := sharedPrefix a b
  let a1 := a.drop front
  let b1 := b.drop front
  let back := sharedSuffix a1 b1
  let a2 := a1.take (a1.length - back)
  let b2 := b1.take (b1.length - back)
  let inner :=
    if a2.isEmpty ∨ b2.isEmpty then
      runOf .delete (old + front) (new + front) a2.length ++
        runOf .insert (old + front) (new + front) b2.length
    else
      match middle? a2 b2 with
      | some (x, y) =>
        if x ≤ a2.length ∧ y ≤ b2.length ∧ 0 < x + y ∧ x + y < a2.length + b2.length then
          scriptAt (old + front) (new + front) (a2.take x) (b2.take y) ++
            scriptAt (old + front + x) (new + front + y) (a2.drop x) (b2.drop y)
        else
          [⟨.delete, old + front, new + front, a2.length⟩,
            ⟨.insert, old + front, new + front, b2.length⟩]
      | none =>
        [⟨.delete, old + front, new + front, a2.length⟩,
          ⟨.insert, old + front, new + front, b2.length⟩]
  runOf .equal old new front ++ inner ++
    runOf .equal (old + front + a2.length) (new + front + b2.length) back
termination_by a.length + b.length
decreasing_by
  all_goals
    have ha : a2.length ≤ a.length := by simp [a2, a1]; omega
    have hb : b2.length ≤ b.length := by simp [b2, b1]; omega
    simp only [List.length_take, List.length_drop]
    omega

/-- A shortest script from one sequence to another. -/
def script (a b : List α) : List Run :=
  scriptAt 0 0 a b

end AssetBake.Diff
