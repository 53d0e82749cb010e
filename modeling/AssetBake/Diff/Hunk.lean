import AssetBake.Diff.Compact

/-!
# Hunks

A script cut into groups of changes that lie near each other, each with some kept elements around it.
-/

namespace AssetBake.Diff

/-- A run of kept elements, or a change: elements deleted and others inserted in their place. -/
inductive Edit
  | keep (old new length : Nat)
  | change (old oldLength new newLength : Nat)
deriving DecidableEq

namespace Edit

def oldStart : Edit → Nat
  | keep old _ _ => old
  | change old _ _ _ => old

def newStart : Edit → Nat
  | keep _ new _ => new
  | change _ _ new _ => new

def oldEnd : Edit → Nat
  | keep old _ length => old + length
  | change old oldLength _ _ => old + oldLength

def newEnd : Edit → Nat
  | keep _ new length => new + length
  | change _ _ new newLength => new + newLength

def isKeep : Edit → Bool
  | keep .. => true
  | change .. => false

end Edit

/-- Deletions and insertions waiting for the next kept run. -/
structure Changes where
  deleted : Option Run
  inserted : Option Run

def Changes.edits : Changes → List Edit
  | ⟨none, none⟩ => []
  | ⟨some d, none⟩ => [.change d.old d.length d.new 0]
  | ⟨none, some i⟩ => [.change i.old 0 i.new i.length]
  | ⟨some d, some i⟩ => [.change d.old d.length i.new i.length]

/-- One waiting run and one more of its kind. -/
def lengthen (waiting : Option Run) (run : Run) : Option Run :=
  match waiting with
  | none => some run
  | some r => some { r with length := r.length + run.length }

def changesThen (changes : Changes) : List Run → List Edit
  | [] => changes.edits
  | run :: rest =>
    match run.tag with
    | .delete => changesThen { changes with deleted := lengthen changes.deleted run } rest
    | .insert => changesThen { changes with inserted := lengthen changes.inserted run } rest
    | .equal => changes.edits ++ .keep run.old run.new run.length :: changesThen ⟨none, none⟩ rest

/-- Kept runs that follow each other become one. -/
def joinKeeps : List Edit → List Edit
  | [] => []
  | .keep old new length :: rest =>
    match joinKeeps rest with
    | .keep _ _ more :: edits => .keep old new (length + more) :: edits
    | edits => .keep old new length :: edits
  | edit :: rest => edit :: joinKeeps rest

def edits (runs : List Run) : List Edit :=
  joinKeeps (changesThen ⟨none, none⟩ runs)

/-- The first kept run without all but its last `context` elements. -/
def trimFront (context : Nat) : List Edit → List Edit
  | .keep old new length :: rest =>
    let cut := length - context
    .keep (old + cut) (new + cut) (length - cut) :: rest
  | edits => edits

/-- The last kept run without all but its first `context` elements. -/
def trimBack (context : Nat) : List Edit → List Edit
  | [] => []
  | [.keep old new length] => [.keep old new (min length context)]
  | edit :: rest => edit :: trimBack context rest

/-- Cuts edits wherever a kept run is longer than the context of two hunks. `group` holds the edits
of the hunk being read, last first. -/
def cutHunks (context : Nat) (group : List Edit) : List Edit → List (List Edit)
  | [] =>
    match group with
    | [] => []
    | [.keep ..] => []
    | _ => [group.reverse]
  | .keep old new length :: rest =>
    if 2 * context < length then
      let cut := length - context
      (.keep old new context :: group).reverse ::
        cutHunks context [.keep (old + cut) (new + cut) context] rest
    else cutHunks context (.keep old new length :: group) rest
  | edit :: rest => cutHunks context (edit :: group) rest

def hunks (context : Nat) (edits : List Edit) : List (List Edit) :=
  cutHunks context [] (trimBack context (trimFront context edits))

end AssetBake.Diff
