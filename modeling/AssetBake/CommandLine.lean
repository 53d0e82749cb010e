import AssetBake.Config

/-!
# Command lines

The commands and options of the program, and what a line of arguments asks for. Options may stand
before or behind the command; each side is checked on its own, and what stands behind the command
goes before what stands in front of it.
-/

namespace AssetBake.CommandLine

inductive Command
  | generate
  | check
  | list
deriving DecidableEq

def Command.word : Command → String
  | generate => "generate"
  | check => "check"
  | list => "list"

def Command.ofWord? (word : List Char) : Option Command :=
  [Command.generate, .check, .list].find? fun c => c.word.toList == word

inductive Refusal
  | invalidValue
  | unknownArgument
  | argumentConflict
  | invalidSubcommand
  | tooManyValues
  | displayHelp
  | displayVersion
deriving DecidableEq

/-- The exit status of a refusal: it is no error to ask for help. -/
def Refusal.exitCode : Refusal → Nat
  | displayHelp => 0
  | displayVersion => 0
  | _ => 2

inductive Switch
  | json
  | verbose
  | quiet
  | followLinks
  | help
  | version
deriving DecidableEq

inductive Setting
  | config
  | input
  | output
  | lead
  | joiner
  | strategy
  | delimiter
  | names
  | guard
  | table
  | exclude
deriving DecidableEq

inductive Choice
  | switch (s : Switch)
  | setting (s : Setting)
deriving DecidableEq

/-- The options by their long names; the version is shown only where no command has been given. -/
def longOptions : List (String × Choice) :=
  [("json", .switch .json), ("verbose", .switch .verbose), ("quiet", .switch .quiet),
    ("follow-links", .switch .followLinks), ("help", .switch .help), ("version", .switch .version),
    ("config", .setting .config), ("input", .setting .input), ("output", .setting .output),
    ("prefix", .setting .lead), ("joiner", .setting .joiner), ("strategy", .setting .strategy),
    ("delimiter", .setting .delimiter), ("names", .setting .names), ("guard", .setting .guard),
    ("table", .setting .table), ("exclude", .setting .exclude)]

def shortOptions : List (Char × Choice) :=
  [('v', .switch .verbose), ('q', .switch .quiet), ('h', .switch .help), ('V', .switch .version),
    ('i', .setting .input), ('o', .setting .output)]

def isKnown (behindCommand : Bool) (choice : Choice) : Bool :=
  !behindCommand || choice != .switch .version

def longOption? (behindCommand : Bool) (name : List Char) : Option Choice :=
  ((longOptions.find? fun o => o.1.toList == name).map (·.2)).filter (isKnown behindCommand)

def shortOption? (behindCommand : Bool) (name : Char) : Option Choice :=
  (shortOptions.lookup name).filter (isKnown behindCommand)

/-- What the options on one side of the command ask for. -/
structure Given where
  json : Bool := false
  /-- How often more output was asked for; no more than 255 times. -/
  verbose : Nat := 0
  quiet : Bool := false
  config : Option Path := none
  layer : Config.Overlay := {}
  /-- An option whose value, if it has come, has not been looked at yet. -/
  pending : Option (Setting × Option (List Char)) := none
deriving DecidableEq

/-- What a line of arguments asks for. -/
structure Arguments where
  json : Bool
  verbose : Nat
  quiet : Bool
  command : Option Command
  config : Option Path
  layer : Config.Overlay
deriving DecidableEq

/-- A layer with another one above it that decides where it says anything. -/
def mergeLayers (above below : Config.Overlay) : Config.Overlay where
  input := above.input.or below.input
  output := above.output.or below.output
  lead := above.lead.or below.lead
  joiner := above.joiner.or below.joiner
  names := above.names.or below.names
  strategy := above.strategy.or below.strategy
  delimiter := above.delimiter.or below.delimiter
  table := above.table.or below.table
  guard := above.guard.or below.guard
  exclude := if above.exclude.isEmpty then below.exclude else above.exclude
  followLinks := above.followLinks || below.followLinks

/-- The options in front of the command with those behind it above them. -/
def Arguments.of (front : Given) (command : Option Command) (behind : Given) : Arguments where
  json := behind.json || front.json
  verbose := if behind.verbose = 0 then front.verbose else behind.verbose
  quiet := behind.quiet || front.quiet
  command := command
  config := behind.config.or front.config
  layer := mergeLayers behind.layer front.layer

end AssetBake.CommandLine
