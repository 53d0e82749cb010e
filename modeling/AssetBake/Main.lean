import AssetBake.FileTree.Edit
import AssetBake.Session

/-!
# The program

Takes up the files below the working directory, carries out what the arguments ask for, and puts down
what the run has changed. All that is decided is decided by `Session.run`.

No more than the working directory is seen: an input, an output or a configuration file elsewhere is
taken not to be there. Modes cannot be asked for, so every file and directory has the mode of a new one,
and what is put down gets the mode that the system gives.
-/

namespace AssetBake.Main

/-- The variables that a run looks at. -/
def variableNames : List String :=
  ["STDBAKE_INPUT", "STDBAKE_OUTPUT", "STDBAKE_PREFIX", "STDBAKE_JOINER", "STDBAKE_NAMES",
    "STDBAKE_STRATEGY", "STDBAKE_GUARD", "STDBAKE_LOG", "STDBAKE_LOG_STYLE", "TERM", "NO_COLOR",
    "CLICOLOR_FORCE", "GITHUB_ACTIONS", "LC_ALL", "LC_CTYPE", "LANG"]

def environment : IO Environment := do
  let mut settings := []
  for name in variableNames do
    if let some value ← IO.getEnv name then
      settings := (name, value) :: settings
  return ⟨settings⟩

/-- The place of an absolute path without links. -/
def placeOf (path : Path) : Location :=
  (path.components.filterMap fun c =>
    match c with
    | .name n => some n
    | _ => none).reverse

/-- The tree with a directory at a place, and at every place on the way to it. -/
def withDirectories (t : FileTree) : Location → FileTree
  | [] => t
  | n :: up => (withDirectories t up).put (n :: up) (.directory t.host.directoryMode)

/-- Where the link at a path leads, by a path without links; a link that leads nowhere gets a target
that leads nowhere. -/
def linkTarget (path : String) : IO Path := do
  try return .ofString (← IO.FS.realPath path).toString
  catch _ => return ⟨[]⟩

/-- Takes up the entries of a directory and all that is below them. -/
partial def takeUp (t : FileTree) (place : Location) (found : Array IO.FS.DirEntry) :
    IO FileTree := do
  let mut t := t
  for e in found do
    if let some name := Name.ofBytes? (Text.Utf8.encode e.fileName) then
      let here := name :: place
      match (← e.path.symlinkMetadata).type with
      | .dir => t ← takeUp (t.put here (.directory t.host.directoryMode)) here (← e.path.readDir)
      | .file =>
        let content ← IO.FS.readBinFile e.path
        t := t.put here (.file t.host.fileMode content.data.toList)
      | .symlink => t := t.put here (.link (← linkTarget e.path.toString))
      | .other => pure ()
  return t

/-- Puts a file in its place in one step. -/
def putDown (path : String) (content : List UInt8) : IO Unit := do
  let staged := path ++ ".new"
  IO.FS.writeBinFile staged ⟨content.toArray⟩
  IO.FS.rename staged path

/-- Puts down the directories and files that a run has made or changed. -/
def putDownChanges (before after : FileTree) : IO Unit := do
  let changed := after.entries.filter fun e => before.find? e.1 != some e.2
  for e in changed do
    if e.2.isDirectory then IO.FS.createDirAll (absolutePath e.1).display
  for e in changed do
    if let .file _ content := e.2 then putDown (absolutePath e.1).display content

def usage : String :=
  "Usage: stdbake [generate|check|list] [OPTIONS]\n"

/-- Carries out the arguments; the result is the exit status. -/
def runWith (arguments : CommandLine.Arguments) : IO UInt32 := do
  let dir ← IO.currentDir
  let cwd := placeOf (.ofString dir.toString)
  let before ← takeUp (withDirectories .empty cwd) cwd (← dir.readDir)
  let around : Surroundings :=
    { cwd := cwd
      env := ← environment
      outputIsTerminal := ← (← IO.getStdout).isTty
      errorIsTerminal := ← (← IO.getStderr).isTty }
  let session := Session.run before around arguments
  IO.eprint (session.errors around arguments)
  putDownChanges before session.tree
  IO.print session.output
  return UInt32.ofNat session.exitCode

end AssetBake.Main

open AssetBake in
/-- The program: its arguments say what is done, and its exit status how it went. -/
def main (arguments : List String) : IO UInt32 := do
  match CommandLine.parse (arguments.map (·.toList)) with
  | .ok parsed => Main.runWith parsed
  | .error .displayVersion =>
    IO.println ("stdbake " ++ Report.version)
    return 0
  | .error .displayHelp =>
    IO.print Main.usage
    return 0
  | .error refusal =>
    IO.eprint Main.usage
    return UInt32.ofNat refusal.exitCode
