import AssetBake.FileTree.Resolve
import AssetBake.Outcome

/-!
# Replacing files

A file is written in full under a name of its own and then renamed to its destination, so that no one
ever finds half of it there. A failed attempt leaves nothing behind but directories.

Every step can fail: for what the tree holds, or because the system refuses it (`Host.refusal`). No step
fails for want of permission, since the process is a privileged one.
-/

namespace AssetBake

inductive ReplaceFault
  | cannotCreate (dir : Path) (fault : PathFault)
  | cannotStage (fault : PathFault)
  | cannotCopyMode (fault : PathFault)
  | cannotFill (fault : PathFault)
  | cannotReplace (fault : PathFault)
deriving DecidableEq

/-- The wording of a fault, but for the name of the temporary file, which is a new one each time. -/
def ReplaceFault.message : ReplaceFault → String
  | cannotCreate dir fault => "cannot create " ++ dir.display ++ ": " ++ fault.message
  | cannotStage fault => "cannot create temporary file: " ++ fault.message
  | cannotCopyMode fault => "cannot copy permissions: " ++ fault.message
  | cannotFill fault => fault.message
  | cannotReplace fault => "cannot replace destination: " ++ fault.message

namespace FileTree

/-- Fails with the reason of the system if it refuses a request. -/
def ask (t : FileTree) (request : Request) : Except PathFault Unit :=
  match t.host.refusal request with
  | some reason => .error (.refused reason)
  | none => .ok ()

/-! ### Directories -/

def makeDirectory (t : FileTree) (cwd : Location) (p : Path) : Except PathFault FileTree := do
  checkPath p
  match ← t.follow false maxLinks (startOf cwd p) p.bareSteps with
  | .present _ => throw .exists
  | .absent name dir =>
    t.ask (.makeDirectory (name :: dir))
    return t.put (name :: dir) (.directory t.host.directoryMode)

/-- Makes a directory and those that are missing on the way to it. -/
def makeDirectories (t : FileTree) (cwd : Location) (p : Path) : FileTree × Except PathFault Unit :=
  if p.bytes.isEmpty then (t, .ok ())
  else
    match t.makeDirectory cwd p with
    | .ok made => (made, .ok ())
    | .error fault =>
      if fault = .notFound then
        match h : p.parent? with
        | none => (t, .error fault)
        | some parent =>
          have : parent.bytes.length < p.bytes.length := Path.length_parent?_lt h
          match makeDirectories t cwd parent with
          | (t, .error fault) => (t, .error fault)
          | (t, .ok ()) =>
            match t.makeDirectory cwd p with
            | .ok made => (made, .ok ())
            | .error fault => (t, if t.isDirectoryAt cwd p then .ok () else .error fault)
      else (t, if t.isDirectoryAt cwd p then .ok () else .error fault)
termination_by p.bytes.length

/-! ### Staging -/

/-- The length of the longest name at the end of some places. -/
def longestName (places : List Location) : Nat :=
  (places.map fun at' => (at'.head?.map (·.bytes.length)).getD 0).foldl max 0

/-- The bytes of a name that is longer than a given length. -/
def stagingBytes (length : Nat) : List UInt8 :=
  dot :: 0x74 :: 0x6d :: 0x70 :: List.replicate length 0x78

/-- A name that no entry of the tree has. -/
def stagingName (t : FileTree) : Name where
  bytes := stagingBytes (longestName (t.entries.map (·.1)))
  plain := by
    refine ⟨by simp [stagingBytes], ?_, by simp [stagingBytes], by simp [stagingBytes]⟩
    simp only [stagingBytes, List.mem_cons, List.mem_replicate, not_or, not_and]
    exact ⟨by decide, by decide, by decide, by decide, fun _ => by decide⟩

/-- The directory in which a file is replaced. -/
def parentOf (p : Path) : Path :=
  match p.parent? with
  | some parent => if parent.bytes.isEmpty then .ofString "." else parent
  | none => .ofString "."

/-- The path under which a file is staged. Its six last letters are new ones each time. -/
def stagingPath (cwd : Location) (parent : Path) : Path :=
  (absolutePath cwd).join (parent.join (.ofString ".tmpXXXXXX"))

/-- The place of a directory in which a file can be staged. -/
def stagingDirectory (t : FileTree) (cwd : Location) (parent : Path) : Except PathFault Location :=
  if pathLimit ≤ (stagingPath cwd parent).bytes.length then .error .nameTooLong
  else do
    let dir ← t.resolve cwd parent
    if t.isDirectory dir then
      t.ask (.stage dir)
      return dir
    else throw .notDirectory

/-- The mode of the replacement: that of what the path leads to, if it leads anywhere. -/
def replacementMode (t : FileTree) (cwd : Location) (p : Path) : Nat :=
  match t.stat cwd p with
  | .ok (.file mode _) => mode
  | .ok (.directory mode) => mode
  | _ => t.host.fileMode

/-- The place that a file renamed to the path would take. -/
def renameTarget (t : FileTree) (cwd : Location) (p : Path) : Except PathFault Location := do
  if p.bytes.contains 0 then throw .invalidArgument
  checkPath p
  let spot ← t.follow false maxLinks (startOf cwd p) p.bareSteps
  match p.bareSteps.getLast? with
  | some (.name _) =>
    if p.endsInSlash then throw .notDirectory
    match spot with
    | .absent name dir => return name :: dir
    | .present at' => if t.isDirectory at' then throw .isDirectory else return at'
  | _ => throw .busy

/-- Asks for the mode of what the path leads to, if it leads anywhere. -/
def askForMode (staged : FileTree) (cwd dir : Location) (p : Path) : Except PathFault Unit :=
  match staged.stat cwd p with
  | .ok _ => staged.ask (.copyMode dir)
  | .error _ => .ok ()

/-- Where the staged file goes once it has its mode and its content. -/
def destination (staged written : FileTree) (cwd dir : Location) (p : Path) :
    Except ReplaceFault Location := do
  (staged.askForMode cwd dir p).mapError .cannotCopyMode
  (staged.ask (.fill dir)).mapError .cannotFill
  let target ← (written.renameTarget cwd p).mapError .cannotReplace
  (written.ask (.rename target)).mapError .cannotReplace
  return target

/-- Writes a file under a name of its own in a directory, then renames it to its destination. The
staged file does not outlive a failure. -/
def stageAndRename (t : FileTree) (cwd dir : Location) (p : Path) (content : List UInt8) :
    FileTree × Except ReplaceFault Unit :=
  let temporary := t.stagingName :: dir
  let staged := t.put temporary (.file t.host.fileMode [])
  let written := staged.put temporary (.file (staged.replacementMode cwd p) content)
  match destination staged written cwd dir p with
  | .error fault => (written.remove temporary, .error fault)
  | .ok target =>
    ((written.remove temporary).put target (.file (staged.replacementMode cwd p) content), .ok ())

/-- Replaces the file at a path, or makes it. A link there is replaced itself, and the permissions of
what the path led to are kept. -/
def replaceFile (t : FileTree) (cwd : Location) (p : Path) (content : List UInt8) :
    FileTree × Except ReplaceFault Unit :=
  let parent := parentOf p
  match t.makeDirectories cwd parent with
  | (t, .error fault) => (t, .error (.cannotCreate parent fault))
  | (t, .ok ()) =>
    match t.stagingDirectory cwd parent with
    | .error fault => (t, .error (.cannotStage fault))
    | .ok dir => t.stageAndRename cwd dir p content

/-- Whether the path leads to a file with exactly the content. -/
def holds (t : FileTree) (cwd : Location) (p : Path) (content : List UInt8) : Bool :=
  match t.contentAt cwd p with
  | .ok existing => existing == content
  | .error _ => false

/-- Replaces the file at a path unless it holds exactly the content. -/
def writeIfChanged (t : FileTree) (cwd : Location) (p : Path) (content : List UInt8) :
    FileTree × Except ReplaceFault WriteOutcome :=
  if t.holds cwd p content then (t, .ok .unchanged)
  else
    match t.replaceFile cwd p content with
    | (t, .error fault) => (t, .error fault)
    | (t, .ok ()) => (t, .ok .written)

end FileTree

end AssetBake
