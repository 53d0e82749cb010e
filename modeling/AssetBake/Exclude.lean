import AssetBake.Glob.Parser
import AssetBake.Text.Blank

/-!
# Exclude lists

Lines in the form of a gitignore file decide which paths are left out. The last line that matches a
path decides; a line that begins with `!` takes the path in again.
-/

namespace AssetBake

open Text

/-- What an exclude list says about a path. -/
inductive Verdict
  | none
  | ignore
  | whitelist
deriving DecidableEq

/-- One line of an exclude list. -/
structure Rule where
  whitelist : Bool
  onlyDirectories : Bool
  pattern : List Glob.Token

inductive RuleFault
  | glob (line : List Char) (fault : Glob.Fault)
  /-- The fault shows only once the line has been trimmed to `trimmed`. -/
  | trimmedGlob (line trimmed : List Char) (fault : Glob.Fault)
deriving DecidableEq

def RuleFault.message : RuleFault → String
  | glob line fault => "invalid exclude pattern '" ++ String.ofList line ++ "': " ++ fault.message
  | trimmedGlob line trimmed fault =>
    "invalid exclude pattern '" ++ String.ofList line ++ "': error parsing glob '" ++
      String.ofList trimmed ++ "': " ++ fault.message

namespace Rule

/-- The line without the blanks at its end, unless the last of them is escaped. -/
def trimLine (line : List Char) : List Char :=
  if ['\\', ' '].isSuffixOf line then line else trimEnd line

/-- A line taken apart: its signs at both ends, and the glob between them. -/
structure Shape where
  whitelist : Bool
  /-- Whether the glob is matched from the top only. -/
  anchored : Bool
  onlyDirectories : Bool
  glob : List Char

def takeFront (line : List Char) : Bool × Bool × List Char :=
  match line with
  | '\\' :: '!' :: rest => (false, false, '!' :: rest)
  | '\\' :: '#' :: rest => (false, false, '#' :: rest)
  | '!' :: '/' :: rest => (true, true, rest)
  | '!' :: rest => (true, false, rest)
  | '/' :: rest => (false, true, rest)
  | _ => (false, false, line)

/-- The slash at the end of a line, with the backslash that may escape it. -/
def takeBack (line : List Char) : Bool × List Char :=
  match line.reverse with
  | '/' :: '\\' :: rest => (true, rest.reverse)
  | '/' :: rest => (true, rest.reverse)
  | _ => (false, line)

def Shape.ofLine (line : List Char) : Shape :=
  let (whitelist, anchored, body) := takeFront line
  let (onlyDirectories, glob) := takeBack body
  ⟨whitelist, anchored, onlyDirectories, glob⟩

/-- The glob that the whole path has to match. A glob without a slash matches at any depth, and one
that ends in `/**` matches what is inside a directory but not the directory. -/
def Shape.wholeGlob (shape : Shape) : List Char :=
  let glob :=
    if shape.anchored || shape.glob.contains '/' || shape.glob = ['*', '*'] then shape.glob
    else ['*', '*', '/'] ++ shape.glob
  if ['/', '*', '*'].isSuffixOf glob then glob ++ ['/', '*'] else glob

/-- The glob of a line as it stands, without a leading `!` and slashes at its end. -/
def bareGlob (line : List Char) : List Char :=
  let glob := match line with
    | '!' :: rest => rest
    | _ => line
  dropEndWhile (· == '/') glob

/-- The rule of a line; a comment or an empty line has none. -/
def ofLine? (line : List Char) : Except RuleFault (Option Rule) := do
  match Glob.parse (bareGlob line) with
  | .error fault => throw (.glob line fault)
  | .ok _ => pure ()
  if line.head? = some '#' then return none
  let trimmed := trimLine line
  if trimmed.isEmpty then return none
  let shape := Shape.ofLine trimmed
  match Glob.parse shape.wholeGlob with
  | .error fault => throw (.trimmedGlob line trimmed fault)
  | .ok pattern => return some ⟨shape.whitelist, shape.onlyDirectories, pattern⟩

def applies (rule : Rule) (path : List UInt8) (isDirectory : Bool) : Bool :=
  (!rule.onlyDirectories || isDirectory) && Glob.isMatch rule.pattern path

end Rule

/-- The rules of one run, for paths below a root. -/
structure ExcludeList where
  root : Path
  rules : List Rule

/-- A path without the `./` it may begin with. -/
def dropLeadingCurrent (bytes : List UInt8) : List UInt8 :=
  match bytes with
  | b :: c :: rest => if b = dot ∧ c = slash then rest else bytes
  | _ => bytes

namespace ExcludeList

/-- The rules of the lines; the first line that is no rule refuses them all. -/
def ofLines (root : Path) (lines : List (List Char)) : Except RuleFault ExcludeList := do
  let rules ← lines.mapM Rule.ofLine?
  return ⟨⟨dropLeadingCurrent root.bytes⟩, rules.filterMap id⟩

def ignoreCount (list : ExcludeList) : Nat :=
  (list.rules.filter fun r => !r.whitelist).length

def whitelistCount (list : ExcludeList) : Nat :=
  (list.rules.filter (·.whitelist)).length

/-- The part of a path that the rules see: if it has a slash and begins with the bytes of the root,
what follows them. -/
def strip (list : ExcludeList) (path : List UInt8) : List UInt8 :=
  let path := dropLeadingCurrent path
  if list.root.components = [.current] ∨ ¬path.contains slash then path
  else if list.root.bytes.isPrefixOf path then
    match path.drop list.root.bytes.length with
    | [] => []
    | b :: rest => if b = slash then rest else b :: rest
  else path

/-- What the last rule that speaks about the path says. -/
def verdict (list : ExcludeList) (path : List UInt8) (isDirectory : Bool) : Verdict :=
  match list.rules.reverse.find? (·.applies (list.strip path) isDirectory) with
  | none => .none
  | some rule => if rule.whitelist then .whitelist else .ignore

end ExcludeList

end AssetBake
