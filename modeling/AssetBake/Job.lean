import AssetBake.Config
import AssetBake.FileTree.Replace
import AssetBake.Outcome
import AssetBake.Key.Registry
import AssetBake.Walk

/-!
# Jobs

What the program does for a configuration: plan the keys, collect the texts, render the header, and
write it or compare it with the one on disk. Only writing changes the tree, and only once the whole
header exists.
-/

namespace AssetBake.Job

/-- What the records of a job are filed under. -/
def target : String := "stdbake::pipeline"

/-- Gives each source its key, which no other one before it may have. -/
def planFrom (style : KeyStyle) (taken : Registry) :
    List Source → Traced Log.Record Failure (List Planned)
  | [] => return []
  | source :: rest => do
    let key ← .ofExcept (style.keyOf source.relative)
    let taken ← .ofExcept (taken.claim key source.relative)
    .note [⟨.debug, target, source.relative.display ++ " -> " ++ String.ofList key⟩]
    let planned ← planFrom style taken rest
    return ⟨key, source⟩ :: planned

def plan (t : FileTree) (cwd : Location) (config : Config) :
    Traced Log.Record Failure (List Planned) := do
  let sources ← t.walk cwd config.input config.exclude config.followLinks
  planFrom config.keys .empty sources

def readText (t : FileTree) (cwd : Location) (p : Path) : Except Failure String :=
  match t.contentAt cwd p with
  | .error fault => .error (.assetReadFailure p fault.message)
  | .ok bytes =>
    match Text.Utf8.decode? bytes, Text.Utf8.fault? bytes with
    | some text, _ => .ok text
    | none, fault =>
      let reason := (fault.map Text.Utf8.Fault.message).getD ""
      .error (.assetReadFailure p ("not valid UTF-8 text (" ++ reason ++ ")"))

/-- Reads the planned files in order. -/
def readAll (t : FileTree) (cwd : Location) :
    List Planned → Traced Log.Record Failure (List Asset)
  | [] => return []
  | planned :: rest => do
    .note [⟨.info, target, "baking: " ++ planned.source.full.display⟩]
    let content ← .ofExcept (readText t cwd planned.source.full)
    let assets ← readAll t cwd rest
    return ⟨planned.key, planned.source, content⟩ :: assets

def collect (t : FileTree) (cwd : Location) (config : Config) :
    Traced Log.Record Failure Table := do
  let planned ← plan t cwd config
  return ⟨← readAll t cwd planned⟩

def render (t : FileTree) (cwd : Location) (config : Config) :
    Traced Log.Record Failure (Table × Artifact) := do
  let table ← collect t cwd config
  let header ← .ofExcept (config.headerStyle.render table)
  return (table, ⟨config.output, String.ofList header⟩)

/-- Puts the header in its place, unless it is there already. -/
def write (t : FileTree) (cwd : Location) (artifact : Artifact) :
    FileTree × Traced Log.Record Failure WriteOutcome :=
  match t.writeIfChanged cwd artifact.path (Text.Utf8.encode artifact.content) with
  | (t, .error fault) => (t, .fail (.outputWriteFailure artifact.path fault.message))
  | (t, .ok .written) => (t, pure .written)
  | (t, .ok .unchanged) =>
    (t, do
      .note [⟨.debug, "stdbake::writer", artifact.path.display ++ " is up to date"⟩]
      return .unchanged)

/-- Renders the header and puts it in its place. -/
def generate (t : FileTree) (cwd : Location) (config : Config) :
    FileTree × Traced Log.Record Failure BakeReport :=
  let rendered := render t cwd config
  match rendered.result with
  | .error failure => (t, ⟨rendered.notes, .error failure⟩)
  | .ok (table, artifact) =>
    let (written, outcome) := write t cwd artifact
    (written, ⟨rendered.notes ++ outcome.notes, outcome.result.map fun outcome =>
      ⟨table.size, table.contentBytes, artifact.path, outcome, artifact.hash⟩⟩)

/-- How the header on disk compares with a fresh one. -/
def freshness (t : FileTree) (cwd : Location) (artifact : Artifact) : Except Failure Freshness :=
  match t.contentAt cwd artifact.path with
  | .ok existing =>
    if existing = Text.Utf8.encode artifact.content then .ok .upToDate
    else .ok (.stale (Text.Utf8.decodeLossy existing))
  | .error .notFound => .ok .missing
  | .error fault =>
    .error (.outputWriteFailure artifact.path
      ("cannot read existing artifact: " ++ fault.message))

/-- Renders the header and compares it with the one on disk. -/
def check (t : FileTree) (cwd : Location) (config : Config) :
    Traced Log.Record Failure CheckReport := do
  let (table, artifact) ← render t cwd config
  let found ← .ofExcept (freshness t cwd artifact)
  return ⟨table.size, artifact, found⟩

/-- Where a configuration that was never written down is said to come from. -/
def configSource : Path := .ofString "<config>"

/-- Validates the configuration and generates the header. -/
def bake (t : FileTree) (cwd : Location) (config : Config) :
    FileTree × Traced Log.Record Failure BakeReport :=
  match config.validate configSource with
  | .error failure => (t, .fail failure)
  | .ok () => generate t cwd config

end AssetBake.Job
