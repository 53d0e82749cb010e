import AssetBake.Diff.Script

/-!
# Compact scripts

A script is made easier to read by moving its deletions, then its insertions, as far up and then as
far down as the elements around them allow, so that runs of one kind come together.
-/

namespace AssetBake.Diff

variable {α : Type} [DecidableEq α]

def slice (a : Array α) (first last : Nat) : List α :=
  (a.extract first last).toList

/-- A script around one of its runs. -/
structure Focus where
  /-- The runs before it, nearest first. -/
  before : List Run
  run : Run
  after : List Run

/-- The elements that an inserted run adds; a deleted run adds none. -/
def addedBy (new : Array α) (run : Run) : List α :=
  slice new run.new run.newEnd

/-- The elements that a run keeps or deletes. -/
def keptBy (old : Array α) (run : Run) : List α :=
  slice old run.old run.oldEnd

/-- Makes room for `n` more kept elements in front of the runs that follow. -/
def growFront (n : Nat) (gap : Run) : List Run → List Run
  | next :: rest =>
    if next.tag = .equal then ⟨.equal, next.old - n, next.new - n, next.length + n⟩ :: rest
    else gap :: next :: rest
  | [] => [gap]

/-- Makes room for `n` more kept elements behind the runs that precede. -/
def growBack (n : Nat) (gap : Run) : List Run → List Run
  | last :: rest =>
    if last.tag = .equal then { last with length := last.length + n } :: rest
    else gap :: last :: rest
  | [] => [gap]

/-- The sum of the lengths of some runs and their number: a bound for how often one of them can be
moved. -/
def weight (runs : List Run) : Nat :=
  runs.foldr (fun r total => r.length + 1 + total) 0

/-- Moves the run in focus up, past other edits and into kept runs that end with what it adds. -/
def moveUp (old new : Array α) : Nat → Focus → Focus
  | 0, f => f
  | fuel + 1, f =>
    match f.before with
    | [] => f
    | last :: earlier =>
      if last.tag = .equal then
        let n := sharedSuffix (keptBy old last) (addedBy new f.run)
        if n = 0 then
          if last.length = 0 then moveUp old new fuel ⟨earlier, f.run, f.after⟩ else f
        else
          let gap : Run := ⟨.equal, last.oldEnd - n, f.run.newEnd - n, n⟩
          let run := { f.run with old := f.run.old - n, new := f.run.new - n }
          let after := growFront n gap f.after
          if last.length = n then moveUp old new fuel ⟨earlier, run, after⟩
          else
            moveUp old new fuel ⟨{ last with length := last.length - n } :: earlier, run, after⟩
      else if last.tag = f.run.tag then
        moveUp old new fuel ⟨earlier, { last with length := last.length + f.run.length }, f.after⟩
      else moveUp old new fuel ⟨earlier, f.run, last :: f.after⟩

/-- Moves the run in focus down, past other edits and into kept runs that begin with what it
adds. -/
def moveDown (old new : Array α) : Nat → Focus → Focus
  | 0, f => f
  | fuel + 1, f =>
    match f.after with
    | [] => f
    | next :: later =>
      if next.tag = .equal then
        let n := sharedPrefix (keptBy old next) (addedBy new f.run)
        if n = 0 then
          if next.length = 0 then moveDown old new fuel ⟨f.before, f.run, later⟩ else f
        else
          let gap : Run := ⟨.equal, next.old, f.run.new, n⟩
          let run := { f.run with old := f.run.old + n, new := f.run.new + n }
          let before := growBack n gap f.before
          if next.length = n then moveDown old new fuel ⟨before, run, later⟩
          else
            moveDown old new fuel
              ⟨before, run, ⟨.equal, next.old + n, next.new + n, next.length - n⟩ :: later⟩
      else if next.tag = f.run.tag then
        moveDown old new fuel
          ⟨f.before, { f.run with length := f.run.length + next.length }, later⟩
      else moveDown old new fuel ⟨next :: f.before, f.run, later⟩

/-- Moves every run of one tag, from the top down. -/
def moveAll (old new : Array α) (tag : Tag) : Nat → List Run → List Run → List Run
  | _, before, [] => before.reverse
  | 0, before, after => before.reverse ++ after
  | fuel + 1, before, run :: after =>
    if run.tag = tag then
      let up := moveUp old new (weight before) ⟨before, run, after⟩
      let down := moveDown old new (weight up.after) up
      moveAll old new tag fuel (down.run :: down.before) down.after
    else moveAll old new tag fuel (run :: before) after

/-- The script with its deletions and its insertions moved together. -/
def compact (old new : Array α) (runs : List Run) : List Run :=
  let fuel (runs : List Run) := (2 * runs.length + 2) * (2 * runs.length + 2)
  let deleted := moveAll old new .delete (fuel runs) [] runs
  moveAll old new .insert (fuel deleted) [] deleted

end AssetBake.Diff
