import AssetBake.Config
import AssetBake.Log
import AssetBake.Terminal

/-!
# Settings from the environment

Variables that begin with `STDBAKE_` form a layer over the configuration file. A variable whose value
is none of the accepted words changes nothing but leaves a warning.
-/

namespace AssetBake.Config

/-- A variable that holds one of a few words. -/
structure WordVariable (α : Type) where
  name : String
  words : List (String × α)
  /-- The words as a warning lists them. -/
  expected : String

namespace WordVariable

variable {α : Type}

/-- What a text stands for, if it is one of the words when it is put in lowercase. -/
def meaning? (v : WordVariable α) (text : String) : Option α :=
  (v.words.find? fun w => w.1 == Text.lowercase text).map (·.2)

def read (v : WordVariable α) (env : Environment) : Option α :=
  (env.get? v.name).bind v.meaning?

def warning (v : WordVariable α) (env : Environment) : List Log.Record :=
  match env.get? v.name with
  | none => []
  | some text =>
    match v.meaning? text with
    | some _ => []
    | none =>
      [⟨.warn, "stdbake::config::loader",
        "ignoring " ++ v.name ++ "=" ++ Text.lowercase text ++ ": expected " ++ v.expected⟩]

end WordVariable

def strategyVariable : WordVariable Strategy :=
  ⟨"STDBAKE_STRATEGY", [("raw", .raw), ("escaped", .escaped)], "raw or escaped"⟩

def namesVariable : WordVariable NamePolicy :=
  ⟨"STDBAKE_NAMES", [("reject", .reject), ("sanitize", .sanitize)], "reject or sanitize"⟩

def guardVariable : WordVariable GuardStyle :=
  ⟨"STDBAKE_GUARD", [("pragma", .pragma), ("macro", .define)], "pragma or macro"⟩

def Overlay.ofEnvironment (env : Environment) : Overlay where
  input := (env.get? "STDBAKE_INPUT").map .ofString
  output := (env.get? "STDBAKE_OUTPUT").map .ofString
  lead := (env.get? "STDBAKE_PREFIX").map (·.toList)
  joiner := (env.get? "STDBAKE_JOINER").map (·.toList)
  names := namesVariable.read env
  strategy := strategyVariable.read env
  guard := guardVariable.read env

def environmentWarnings (env : Environment) : List Log.Record :=
  strategyVariable.warning env ++ namesVariable.warning env ++ guardVariable.warning env

end AssetBake.Config
