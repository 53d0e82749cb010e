import AssetBake.Exclude
import AssetBake.Header

/-!
# Configuration

The settings of a run, the layers that change some of them, and the settings that would not give a
usable header.
-/

namespace AssetBake

open Text

structure Config where
  /-- The directory to embed. -/
  input : Path
  /-- The header to write. -/
  output : Path
  /-- Lines that leave files out. -/
  exclude : List (List Char)
  /-- Whether the walk descends into linked directories. -/
  followLinks : Bool
  keys : KeyStyle
  literals : LiteralStyle
  table : List Char
  guard : GuardStyle
  /-- The guard name, unless it follows from the output. -/
  guardName : Option (List Char)
deriving DecidableEq

namespace Config

/-- The settings that hold where no layer says otherwise. -/
def standard : Config where
  input := .ofString "src/std"
  output := .ofString "src/include/bake.hpp"
  exclude := []
  followLinks := false
  keys := .standard
  literals := .standard
  table := defaultTableName.toList
  guard := .pragma
  guardName := none

/-- The name that guards the header: the chosen one, or one that follows from the output. -/
def effectiveGuardName (config : Config) : List Char :=
  config.guardName.getD (guardNameFor config.output)

def headerStyle (config : Config) : HeaderStyle where
  tableName := config.table
  guard := config.guard
  guardName := config.effectiveGuardName
  literals := config.literals

/-! ### Layers -/

/-- The settings that one layer changes. -/
structure Overlay where
  input : Option Path := none
  output : Option Path := none
  lead : Option (List Char) := none
  joiner : Option (List Char) := none
  names : Option NamePolicy := none
  strategy : Option Strategy := none
  delimiter : Option (List Char) := none
  table : Option (List Char) := none
  guard : Option GuardStyle := none
  /-- Lines that come after those of the layers below. -/
  exclude : List (List Char) := []
  /-- A layer can turn the following of links on, but not off. -/
  followLinks : Bool := false
deriving DecidableEq

/-- The settings with those of a layer laid over them. -/
def overlay (config : Config) (layer : Overlay) : Config where
  input := layer.input.getD config.input
  output := layer.output.getD config.output
  exclude := config.exclude ++ layer.exclude
  followLinks := config.followLinks || layer.followLinks
  keys :=
    { lead := layer.lead.getD config.keys.lead
      joiner := layer.joiner.getD config.keys.joiner
      policy := layer.names.getD config.keys.policy }
  literals :=
    { strategy := layer.strategy.getD config.literals.strategy
      delimiter := layer.delimiter.getD config.literals.delimiter }
  table := layer.table.getD config.table
  guard := layer.guard.getD config.guard
  guardName := config.guardName

/-! ### Validation -/

inductive Fault
  | badLead (lead : List Char) (c : Char)
  | emptyJoiner
  | badJoiner (joiner : List Char) (c : Char)
  | badDelimiter (fault : Literal.DelimiterFault)
  | badTable (name : List Char)
  | badGuard (name : List Char)
  | badExclude (fault : RuleFault)
deriving DecidableEq

def Fault.message : Fault → String
  | badLead lead c =>
    "keys.prefix '" ++ String.ofList lead ++ "' contains " ++ quoteChar c ++
      "; only letters, digits and '_' are allowed"
  | emptyJoiner => "keys.joiner must not be empty"
  | badJoiner joiner c =>
    "keys.joiner '" ++ String.ofList joiner ++ "' contains " ++ quoteChar c ++
      "; only letters, digits and '_' are allowed"
  | badDelimiter fault => "literal." ++ fault.message
  | badTable name => "header.table '" ++ String.ofList name ++ "' is not a valid C++ identifier"
  | badGuard name =>
    "header.guard_macro '" ++ String.ofList name ++ "' is not a valid C++ identifier"
  | badExclude fault => fault.message

/-- The first fault of the settings, in the order in which they are checked. -/
def check (config : Config) : Except Fault Unit := do
  if let some c := config.keys.lead.find? fun c => !isKeyChar c then
    throw (.badLead config.keys.lead c)
  if config.keys.joiner.isEmpty then
    throw .emptyJoiner
  if let some c := config.keys.joiner.find? fun c => !isKeyChar c then
    throw (.badJoiner config.keys.joiner c)
  match Literal.checkDelimiter config.literals.delimiter with
  | .error fault => throw (.badDelimiter fault)
  | .ok () => pure ()
  unless isIdentifier config.table do
    throw (.badTable config.table)
  if config.guard = .define ∧ ¬isIdentifier config.effectiveGuardName then
    throw (.badGuard config.effectiveGuardName)
  match ExcludeList.ofLines config.input config.exclude with
  | .error fault => throw (.badExclude fault)
  | .ok _ => pure ()

/-- Refuses settings that would not give a usable header; `source` is where they came from. -/
def validate (config : Config) (source : Path) : Except Failure Unit :=
  match config.check with
  | .ok () => .ok ()
  | .error fault => .error (.invalidConfig source fault.message)

end Config

end AssetBake
