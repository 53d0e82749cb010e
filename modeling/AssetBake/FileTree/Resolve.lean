import AssetBake.FileTree

/-!
# Looking up paths

A path is followed name by name from the working directory or the root, through symbolic links up to
a limit. Each way to fail has the wording of the operating system. There is none for want of permission,
since the process is a privileged one: it searches every directory and reads every file.
-/

namespace AssetBake

inductive PathFault
  | notFound
  | busy
  | exists
  | notDirectory
  | isDirectory
  | invalidArgument
  | nameTooLong
  | tooManyLinks
  /-- The path holds a NUL byte, which no path can. -/
  | nul
  /-- The system has a reason that is not in the tree. -/
  | refused (reason : String)
deriving DecidableEq

def PathFault.message : PathFault → String
  | notFound => "No such file or directory (os error 2)"
  | busy => "Device or resource busy (os error 16)"
  | «exists» => "File exists (os error 17)"
  | notDirectory => "Not a directory (os error 20)"
  | isDirectory => "Is a directory (os error 21)"
  | invalidArgument => "Invalid argument (os error 22)"
  | nameTooLong => "File name too long (os error 36)"
  | tooManyLinks => "Too many levels of symbolic links (os error 40)"
  | nul => "file name contained an unexpected NUL byte"
  | refused reason => reason

/-- The path that leads to a place from anywhere. -/
def absolutePath (place : Location) : Path :=
  ⟨slash :: [slash].intercalate (place.reverse.map (·.bytes))⟩

namespace Path

/-- The step that a piece between slashes asks for; an empty piece asks for none. -/
def stepOfPiece? (piece : List UInt8) : Option Component :=
  if piece = [dot] then some .current else Component.ofPiece? piece

/-- The steps of a path without a slash at its end. -/
def bareSteps (p : Path) : List Component :=
  (p.bytes.splitOn slash).filterMap stepOfPiece?

def endsInSlash (p : Path) : Bool :=
  p.bytes.getLast? == some slash

/-- The steps of a path. A slash at the end asks, like `.`, for a directory. -/
def steps (p : Path) : List Component :=
  p.bareSteps ++ if p.endsInSlash then [.current] else []

end Path

namespace FileTree

def maxNameLength : Nat := 255

/-- Paths of this length are too long. -/
def pathLimit : Nat := 4096

/-- The number of symbolic links that are followed on the way to one entry. -/
def maxLinks : Nat := 40

/-- Where a path leads: to an entry, or to a free place in a directory. -/
inductive Spot
  | present (at' : Location)
  | absent (name : Name) (dir : Location)
deriving DecidableEq

/-- Where a link of a directory starts from. -/
def startOf (dir : Location) (target : Path) : Location :=
  if target.isAbsolute then [] else dir

/-- Takes the steps from a place on. A link at the last step is followed only on demand; `links` is
the number of links that may still be followed. -/
def follow (t : FileTree) (followLast : Bool) (links : Nat) (at' : Location) :
    List Component → Except PathFault Spot
  | [] => .ok (.present at')
  | step :: rest =>
    if !t.isDirectory at' then .error .notDirectory
    else
      match step with
      | .root => follow t followLast links at' rest
      | .current => follow t followLast links at' rest
      | .parent => follow t followLast links at'.tail rest
      | .name n =>
        if maxNameLength < n.bytes.length then .error .nameTooLong
        else
          match t.find? (n :: at') with
          | none => if rest.isEmpty then .ok (.absent n at') else .error .notFound
          | some (.link target) =>
            if rest.isEmpty && !followLast then .ok (.present (n :: at'))
            else
              match links with
              | 0 => .error .tooManyLinks
              | links + 1 =>
                if target.bytes.isEmpty then .error .notFound
                else follow t followLast links (startOf at' target) (target.steps ++ rest)
          | some _ => follow t followLast links (n :: at') rest
termination_by steps => (links, steps.length)

/-- Refuses a path that no system call takes. -/
def checkPath (p : Path) : Except PathFault Unit :=
  if p.bytes.contains 0 then .error .nul
  else if p.bytes.isEmpty then .error .notFound
  else if pathLimit ≤ p.bytes.length then .error .nameTooLong
  else .ok ()

/-- Where a path leads from the working directory. -/
def locate (t : FileTree) (cwd : Location) (followLast : Bool) (p : Path) :
    Except PathFault Spot := do
  checkPath p
  t.follow followLast maxLinks (startOf cwd p) p.steps

/-- The place of the entry that steps lead to from a place, with links followed. -/
def resolveFrom (t : FileTree) (at' : Location) (steps : List Component) :
    Except PathFault Location := do
  match ← t.follow true maxLinks at' steps with
  | .present found => return found
  | .absent .. => throw .notFound

/-- The place of the entry that a path leads to, with links followed. -/
def resolve (t : FileTree) (cwd : Location) (p : Path) : Except PathFault Location := do
  checkPath p
  t.resolveFrom (startOf cwd p) p.steps

/-- The entry that a path leads to, with links followed. -/
def stat (t : FileTree) (cwd : Location) (p : Path) : Except PathFault Entry := do
  match t.find? (← t.resolve cwd p) with
  | some e => return e
  | none => throw .notFound

def isDirectoryAt (t : FileTree) (cwd : Location) (p : Path) : Bool :=
  match t.stat cwd p with
  | .ok e => e.isDirectory
  | .error _ => false

def isFileAt (t : FileTree) (cwd : Location) (p : Path) : Bool :=
  match t.stat cwd p with
  | .ok e => e.isFile
  | .error _ => false

/-- The content of the file that a path leads to. -/
def contentAt (t : FileTree) (cwd : Location) (p : Path) : Except PathFault (List UInt8) := do
  match ← t.stat cwd p with
  | .file _ content => return content
  | .directory _ => throw .isDirectory
  | .link _ => throw .notFound

end FileTree

end AssetBake
