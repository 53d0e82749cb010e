import AssetBake.Text.Lowercase

/-!
# Terminals

What a stream can show, by the environment, and texts painted accordingly.
-/

namespace AssetBake

/-- The variables that are set, with their values. -/
structure Environment where
  settings : List (String × String)

def Environment.get? (env : Environment) (name : String) : Option String :=
  env.settings.lookup name

namespace Terminal

/-- What a stream can show. -/
structure Capabilities where
  color : Bool
  unicode : Bool
  /-- Whether the run is a step of a GitHub workflow. -/
  github : Bool
deriving DecidableEq

def asciiLower (text : String) : List Char :=
  text.toList.map Char.toLower

/-- The first variable of a list that is set to something. -/
def firstNonempty? (env : Environment) (names : List String) : Option String :=
  names.findSome? fun name => (env.get? name).filter fun value => !value.isEmpty

/-- Whether the locale is `C` or `POSIX`. -/
def hasAsciiLocale (env : Environment) : Bool :=
  match firstNonempty? env ["LC_ALL", "LC_CTYPE", "LANG"] with
  | none => false
  | some value => Text.lowercase value == "c" || Text.lowercase value == "posix"

def capabilities (env : Environment) (isTerminal : Bool) : Capabilities :=
  let dumb := asciiLower ((env.get? "TERM").getD "") == "dumb".toList
  let colorless := (env.get? "NO_COLOR").any fun value => !value.isEmpty
  let forced := (env.get? "CLICOLOR_FORCE").any fun value => value != "0"
  { color := !colorless && (forced || (isTerminal && !dumb))
    unicode := !dumb && !hasAsciiLocale env
    github := env.get? "GITHUB_ACTIONS" == some "true" }

/-- Colours by meaning. -/
inductive Color
  | success
  | error
  | warning
  | info
  | dim

/-- The number of the colour in the palette of 256. -/
def Color.code : Color → String
  | success => "10"
  | error => "9"
  | warning => "11"
  | info => "14"
  | dim => "8"

def paint (hasColor : Bool) (color : Color) (text : String) : String :=
  if hasColor then "\x1b[38;5;" ++ color.code ++ "m" ++ text ++ "\x1b[39m" else text

inductive Icon
  | success
  | error
  | warning
  | arrow

def Icon.text (hasUnicode : Bool) : Icon → String
  | success => if hasUnicode then "✓" else "[OK]"
  | error => if hasUnicode then "✗" else "[ERROR]"
  | warning => if hasUnicode then "⚠" else "[WARN]"
  | arrow => if hasUnicode then "←" else "<-"

def Capabilities.icon (caps : Capabilities) (color : Color) (icon : Icon) : String :=
  paint caps.color color (icon.text caps.unicode)

end Terminal

end AssetBake
