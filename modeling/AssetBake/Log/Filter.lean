import AssetBake.Literal
import AssetBake.Log
import AssetBake.Terminal
import AssetBake.Text.Blank

/-!
# Log filters

A filter lets records through by their level and by the part of the program that made them. It is
read from a text such as `warn,stdbake::walker=debug/found`: directives with commas between them and,
behind a slash, a text that the message has to contain.
-/

namespace AssetBake.Log

open Text

/-- The level up to which the records of some targets are let through; `none` lets none through. -/
structure Directive where
  /-- What the target begins with; a directive without it is for all targets. -/
  target : Option (List Char)
  level : Option Level
deriving DecidableEq

structure Filter where
  directives : List Directive
  /-- What a message has to contain. -/
  needle : List Char
deriving DecidableEq

namespace Directive

def covers (d : Directive) (target : List Char) : Bool :=
  (d.target.getD []).isPrefixOf target

/-- How closely the directive names its targets. -/
def weight (d : Directive) : Nat :=
  (d.target.getD []).length

def allows (d : Directive) (level : Level) : Bool :=
  d.level.any fun top => level.rank ≤ top.rank

end Directive

namespace Filter

/-- The filter with a directive more, in place of the one for the same targets if there is one. -/
def insert (filter : Filter) (d : Directive) : Filter :=
  if filter.directives.any fun old => old.target == d.target then
    { filter with
      directives := filter.directives.map fun old => if old.target = d.target then d else old }
  else { filter with directives := filter.directives ++ [d] }

/-- The heavier of two directives, or the second if they are level. -/
def heavier (best : Option Directive) (d : Directive) : Option Directive :=
  match best with
  | none => some d
  | some other => if other.weight ≤ d.weight then some d else some other

/-- The directive that decides about a target: of those that cover it the heaviest, and of these the
last. A filter without directives lets errors through. -/
def deciding? (filter : Filter) (target : List Char) : Option Directive :=
  let directives :=
    if filter.directives.isEmpty then [⟨none, some .error⟩] else filter.directives
  (directives.filter (·.covers target)).foldl heavier none

def admits (filter : Filter) (record : Record) : Bool :=
  ((filter.deciding? record.target.toList).any fun d => d.allows record.level) &&
    Literal.occursIn filter.needle record.message.toList

end Filter

/-! ### Reading filters -/

/-- The level that a word names, but for the case of ASCII letters; `off` names none at all. -/
def levelOfWord? (word : List Char) : Option (Option Level) :=
  let words : List (String × Option Level) :=
    [("off", none), ("error", some .error), ("warn", some .warn), ("info", some .info),
      ("debug", some .debug), ("trace", some .trace)]
  (words.find? fun w => w.1.toList == word.map Char.toLower).map (·.2)

/-- The directive that a text without commas stands for, or the part of it that is wrong. -/
def Directive.ofText (text : List Char) : Except (List Char) Directive :=
  match text.splitOn '=' with
  | [word] =>
    match levelOfWord? word with
    | some level => .ok ⟨none, level⟩
    | none => .ok ⟨some word, some .trace⟩
  | [target, word] =>
    let word := trim word
    if word.isEmpty then .ok ⟨some target, some .trace⟩
    else
      match levelOfWord? word with
      | some level => .ok ⟨some target, level⟩
      | none => .error word
  | _ => .error text

/-- The warning about a part of a text that is no directive. -/
def invalidSpec (part : List Char) : String :=
  "invalid logging spec '" ++ String.ofList part ++ "'"

/-- The filter with the directives of a text, and what is wrong about the others. -/
def Filter.addDirectives (filter : Filter) : List (List Char) → Filter × List String
  | [] => (filter, [])
  | text :: rest =>
    let text := trim text
    if text.isEmpty then filter.addDirectives rest
    else
      match Directive.ofText text with
      | .ok d => (filter.insert d).addDirectives rest
      | .error part =>
        let (filter, faults) := filter.addDirectives rest
        (filter, invalidSpec part :: faults)

/-- The filter that a text stands for, and what is wrong with the text. -/
def Filter.ofText (text : List Char) : Filter × List String :=
  match text.splitOn '/' with
  | [directives] => addDirectives ⟨[], []⟩ (directives.splitOn ',')
  | [directives, needle] => addDirectives ⟨[], needle⟩ (directives.splitOn ',')
  | _ => (⟨[], []⟩, [invalidSpec text ++ " (too many '/'s)"])

/-! ### The filter of a run -/

/-- The level that a run asks for by its flags, if it asks for one. -/
def flaggedLevel? (quiet : Bool) (verbose : Nat) : Option Level :=
  if quiet then some .error
  else
    match verbose with
    | 0 => none
    | 1 => some .info
    | 2 => some .debug
    | _ => some .trace

/-- The filter of a run, with warnings about the variable that holds it. The flags decide about all
targets that the variable does not name. -/
def Filter.ofEnvironment (env : Environment) (quiet : Bool) (verbose : Nat) :
    Filter × List String :=
  let (filter, faults) := Filter.ofText ((env.get? "STDBAKE_LOG").getD "warn").toList
  let filter := match flaggedLevel? quiet verbose with
    | some level => filter.insert ⟨none, some level⟩
    | none => filter
  (filter, faults.map fun fault => "warning: " ++ fault ++ ", ignoring it\n")

/-! ### Showing records -/

/-- What makes the name of a level stand out. -/
def Level.style : Level → String
  | error => "\x1b[1m\x1b[31m"
  | warn => "\x1b[33m"
  | info => "\x1b[32m"
  | debug => "\x1b[34m"
  | trace => "\x1b[36m"

/-- Whether records are shown in colour on a stream. -/
def hasColor (env : Environment) (caps : Terminal.Capabilities) : Bool :=
  match env.get? "STDBAKE_LOG_STYLE" with
  | some "always" => true
  | some "never" => false
  | _ => caps.color

def Record.line (color : Bool) (record : Record) : String :=
  let level := record.level.word
  (if color then record.level.style ++ level ++ "\x1b[0m" else level) ++ ": " ++ record.message ++
    "\n"

end AssetBake.Log
