import AssetBake.Path
import AssetBake.Text.Quoted

/-!
# Keys

The key of a file is a prefix followed by its relative path, with every slash and every dot replaced
by a joiner. What else may not stand in an identifier is refused or replaced as well, by the policy.
-/

namespace AssetBake

open Text

/-- What becomes of a character that may not stand in a key. -/
inductive NamePolicy
  | reject
  | sanitize
deriving DecidableEq, Inhabited

/-- How keys are formed in one run. -/
structure KeyStyle where
  /-- What every key begins with. -/
  lead : List Char
  /-- What replaces slashes and dots. -/
  joiner : List Char
  policy : NamePolicy
deriving DecidableEq

/-- Keys begin with `std_`, are joined by `_`, and nothing is replaced silently. -/
def KeyStyle.standard : KeyStyle :=
  ⟨"std_".toList, "_".toList, .reject⟩

/-- Letters, digits and the underscore of ASCII. -/
def isKeyChar (c : Char) : Bool :=
  c.isAlphanum || c == '_'

def startsWithDigit (s : List Char) : Bool :=
  match s with
  | [] => false
  | c :: _ => c.isDigit

/-- Whether a text is not empty, made of key characters, and begins with no digit. -/
def isIdentifier (s : List Char) : Bool :=
  !s.isEmpty && s.all isKeyChar && !startsWithDigit s

inductive NameFault
  | notText
  | notRelative
  | empty
  /-- The key would hold a character that may not stand in it. -/
  | badCharacter (c : Char) (key : List Char)
  | leadingDigit (key : List Char)
deriving DecidableEq

def NameFault.message : NameFault → String
  | notText => "path is not valid UTF-8"
  | notRelative => "path must be relative to the input directory"
  | empty => "path is empty"
  | badCharacter c key =>
    "character " ++ quoteChar c ++ " is not allowed in key '" ++ String.ofList key ++
      "' (set names = \"sanitize\" to replace it)"
  | leadingDigit key => "key '" ++ String.ofList key ++ "' starts with a digit"

/-- The names among the components as texts; anything but names and `.` is a fault. -/
def plainTexts : List Component → Except NameFault (List (List Char))
  | [] => .ok []
  | .current :: rest => plainTexts rest
  | .name n :: rest =>
    match Utf8.decode? n.bytes with
    | none => .error .notText
    | some text => (plainTexts rest).map (text.toList :: ·)
  | _ :: _ => .error .notRelative

/-- The path as text, its names with one slash between each two. -/
def Path.normalize (p : Path) : Except NameFault (List Char) :=
  match plainTexts p.components with
  | .error fault => .error fault
  | .ok [] => .error .empty
  | .ok texts => .ok (['/'].intercalate texts)

namespace KeyStyle

/-- The prefix and the path with slashes and dots replaced. -/
def joined (style : KeyStyle) (normalized : List Char) : List Char :=
  style.lead ++
    normalized.flatMap fun c => if c = '/' ∨ c = '.' then style.joiner else [c]

/-- A key with every character that may not stand in it replaced. -/
def sanitized (style : KeyStyle) (key : List Char) : List Char :=
  let plain := key.flatMap fun c => if isKeyChar c then [c] else style.joiner
  if startsWithDigit plain then '_' :: plain else plain

def derive (style : KeyStyle) (relative : Path) : Except NameFault (List Char) := do
  let normalized ← relative.normalize
  let key := style.joined normalized
  match style.policy with
  | .reject =>
    match key.find? fun c => !isKeyChar c with
    | some c => .error (.badCharacter c key)
    | none => if startsWithDigit key then .error (.leadingDigit key) else .ok key
  | .sanitize => .ok (style.sanitized key)

end KeyStyle

end AssetBake
