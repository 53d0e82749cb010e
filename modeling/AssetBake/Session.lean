import AssetBake.CommandLine.Parser
import AssetBake.Config.Environment
import AssetBake.Config.File
import AssetBake.Diff.Unified
import AssetBake.Job
import AssetBake.Log.Filter
import AssetBake.Report.Annotation
import AssetBake.Report.Complaint
import AssetBake.Report.Event
import AssetBake.Report.Summary

/-!
# Sessions

One run of the program: the configuration it works out, the job it does, and all that it says on
standard output and standard error.
-/

namespace AssetBake

/-- Where a run takes place. The working directory is one that the system can name: it is there, and
asking for it never fails. -/
structure Surroundings where
  cwd : Location
  env : Environment
  outputIsTerminal : Bool := false
  errorIsTerminal : Bool := false

namespace Surroundings

def outputCapabilities (around : Surroundings) : Terminal.Capabilities :=
  Terminal.capabilities around.env around.outputIsTerminal

def errorCapabilities (around : Surroundings) : Terminal.Capabilities :=
  Terminal.capabilities around.env around.errorIsTerminal

end Surroundings

namespace Session

/-- One thing that a run says. -/
inductive Utterance
  /-- On standard output, for other programs. -/
  | event (e : Report.Event)
  /-- On standard output, for a person. -/
  | shown (text : String)
  /-- On standard error. -/
  | told (text : String)
  /-- On standard error, if the filter lets it through. -/
  | logged (record : Log.Record)

/-- A part of a run: what it says, and how it ends. -/
abbrev Part := Traced Utterance Failure

/-- What the records of a run are filed under. -/
def target : String := "stdbake::commands"

/-- Where settings are said to come from when no file gives them. -/
def commandLineSource : Path := .ofString "<command line>"

def Part.say (utterances : List Utterance) : Part Unit :=
  .note utterances

/-- A part that makes nothing but records. -/
def Part.ofLogged {α : Type} (x : Traced Log.Record Failure α) : Part α :=
  x.mapNotes .logged

/-! ### Settings -/

def warn (around : Surroundings) (json : Bool) (w : Config.Warning) : Utterance :=
  if json then .event (.warning w)
  else .told (Report.settingWarning around.errorCapabilities w)

def loadFile (t : FileTree) (around : Surroundings) (json : Bool) :
    Option Path → Part Config
  | none => return .standard
  | some file => do
    .say [.logged ⟨.debug, target, "loading config from " ++ file.display⟩]
    let (config, warnings) ← .ofExcept (Config.load t around.cwd file)
    .say (warnings.map (warn around json))
    return config

/-- The settings of a run: those of the file, under those of the environment, under those of the
command line. -/
def settings (t : FileTree) (around : Surroundings) (arguments : CommandLine.Arguments) :
    Part Config := do
  let file := Config.discover t around.cwd arguments.config (absolutePath around.cwd)
  let config ← loadFile t around arguments.json file
  .say ((Config.environmentWarnings around.env).map .logged)
  let config := (config.overlay (.ofEnvironment around.env)).overlay arguments.layer
  .ofExcept (config.validate (file.getD commandLineSource))
  return config

/-! ### Commands -/

def begin (arguments : CommandLine.Arguments) (command : CommandLine.Command) (config : Config) :
    Part Unit :=
  .say (if arguments.json then [.event (.start command.word config.input config.output)] else [])

def showGenerate (around : Surroundings) (arguments : CommandLine.Arguments) (done : BakeReport) :
    List Utterance :=
  if arguments.json then [.event (.generated done)]
  else if arguments.quiet then []
  else [.shown (Report.generateSummary around.outputCapabilities done)]

def generate (t : FileTree) (around : Surroundings) (arguments : CommandLine.Arguments)
    (config : Config) : FileTree × Part Bool :=
  let (written, outcome) := Job.generate t around.cwd config
  (written, do
    begin arguments .generate config
    let done ← .ofLogged outcome
    .say [.logged ⟨.info, target ++ "::generate",
      done.outcome.word ++ " " ++ done.output.display ++ " (" ++ toString done.assets ++ " assets)"⟩]
    .say (showGenerate around arguments done)
    return true)

def showCheck (around : Surroundings) (arguments : CommandLine.Arguments) (done : CheckReport) :
    List Utterance :=
  let caps := around.outputCapabilities
  let diff := match done.freshness with
    | .stale existing =>
      if arguments.quiet then []
      else [.shown (Diff.unified done.artifact.path.display existing done.artifact.content 3
        caps.color)]
    | _ => []
  if arguments.json then [.event (.checked done)]
  else if arguments.quiet && done.isUpToDate then diff
  else diff ++ [.shown (Report.checkResult caps done)]

/-- Compares the header; it is no success to find it out of date. -/
def check (t : FileTree) (around : Surroundings) (arguments : CommandLine.Arguments)
    (config : Config) : Part Bool := do
  begin arguments .check config
  let done ← .ofLogged (Job.check t around.cwd config)
  .say (showCheck around arguments done)
  return done.isUpToDate

def showList (around : Surroundings) (arguments : CommandLine.Arguments)
    (planned : List Planned) : List Utterance :=
  if arguments.json then
    planned.map (fun p => .event (.asset p)) ++ [.event (.listed planned.length)]
  else [.shown (Report.keyList around.outputCapabilities planned)]

def list (t : FileTree) (around : Surroundings) (arguments : CommandLine.Arguments)
    (config : Config) : Part Bool := do
  begin arguments .list config
  let planned ← .ofLogged (Job.plan t around.cwd config)
  .say (showList around arguments planned)
  return true

/-- Carries out the command; without one the header is generated. -/
def perform (t : FileTree) (around : Surroundings) (arguments : CommandLine.Arguments)
    (config : Config) : FileTree × Part Bool :=
  match arguments.command.getD .generate with
  | .generate => generate t around arguments config
  | .check => (t, check t around arguments config)
  | .list => (t, list t around arguments config)

def complain (around : Surroundings) (json : Bool) (failure : Failure) : List Utterance :=
  if json then [.event (.failed failure)]
  else
    let caps := around.errorCapabilities
    let annotation :=
      if caps.github then
        [.shown (String.ofList (Report.annotation (failure.path?.map fun p => p.display.toList)
          failure.message.toList) ++ "\n")]
      else []
    annotation ++ [.told (Report.complaint caps failure)]

end Session

structure Session where
  /-- The tree that the run leaves. -/
  tree : FileTree
  said : List Session.Utterance
  success : Bool

namespace Session

/-- A part of a run that ends it. -/
def ofPart (around : Surroundings) (json : Bool) (t : FileTree) (part : Part Bool) : Session :=
  match part.result with
  | .ok success => ⟨t, part.notes, success⟩
  | .error failure => ⟨t, part.notes ++ complain around json failure, false⟩

/-- Carries out what the arguments ask for. -/
def run (t : FileTree) (around : Surroundings) (arguments : CommandLine.Arguments) : Session :=
  let settings := settings t around arguments
  match settings.result with
  | .error failure => ofPart around arguments.json t ⟨settings.notes, .error failure⟩
  | .ok config =>
    let (left, part) := perform t around arguments config
    ofPart around arguments.json left ⟨settings.notes ++ part.notes, part.result⟩

def exitCode (session : Session) : Nat :=
  if session.success then 0 else 1

def Utterance.output : Utterance → String
  | event e => e.line
  | shown text => text
  | told _ => ""
  | logged _ => ""

def Utterance.errors (filter : Log.Filter) (color : Bool) : Utterance → String
  | event _ => ""
  | shown _ => ""
  | told text => text
  | logged record => if filter.admits record then record.line color else ""

def output (session : Session) : String :=
  String.join (session.said.map Utterance.output)

def errors (around : Surroundings) (arguments : CommandLine.Arguments) (session : Session) :
    String :=
  let (filter, warnings) :=
    Log.Filter.ofEnvironment around.env arguments.quiet arguments.verbose
  let color := Log.hasColor around.env around.errorCapabilities
  String.join warnings ++ String.join (session.said.map (Utterance.errors filter color))

end Session

end AssetBake
