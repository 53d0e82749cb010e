import AssetBake.FileTree.Replace

/-!
# Changing and listing trees by path

The plain changes that a path can ask for, and what lies below a directory.
-/

namespace AssetBake.FileTree

/-- Writes a file where a path leads, through links. -/
def putAt (t : FileTree) (cwd : Location) (p : Path) (content : List UInt8) :
    Except PathFault FileTree := do
  checkPath p
  match ← t.follow true maxLinks (startOf cwd p) p.steps with
  | .absent name dir => return t.put (name :: dir) (.file t.host.fileMode content)
  | .present at' =>
    match t.find? at' with
    | some (.file mode _) => return t.put at' (.file mode content)
    | _ => throw .isDirectory

def makeLink (t : FileTree) (cwd : Location) (p target : Path) : Except PathFault FileTree := do
  checkPath p
  match ← t.follow false maxLinks (startOf cwd p) p.steps with
  | .absent name dir => return t.put (name :: dir) (.link target)
  | .present _ => throw .exists

def changeMode (t : FileTree) (cwd : Location) (p : Path) (mode : Nat) :
    Except PathFault FileTree := do
  return t.setMode (← t.resolve cwd p) mode

/-- Removes what is at a path, with all that is below it. A link is removed itself. -/
def removeAt (t : FileTree) (cwd : Location) (p : Path) : Except PathFault FileTree := do
  checkPath p
  match ← t.follow false maxLinks (startOf cwd p) p.steps with
  | .present at' => return t.remove at'
  | .absent .. => throw .notFound

def modeAt (t : FileTree) (cwd : Location) (p : Path) : Except PathFault Nat := do
  match ← t.stat cwd p with
  | .file mode _ => return mode
  | .directory mode => return mode
  | .link _ => throw .notFound

/-- The way from one place down to another, if there is one. -/
def wayBelow? (dir at' : Location) : Option (List Name) :=
  if dir <:+ at' ∧ at' ≠ dir then some (at'.take (at'.length - dir.length)).reverse else none

/-- The entries below a place, each with the names that lead to it. -/
def below (t : FileTree) (dir : Location) : List (List Name × Entry) :=
  t.entries.filterMap fun e => (wayBelow? dir e.1).map fun way => (way, e.2)

end AssetBake.FileTree
