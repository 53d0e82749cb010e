import AssetBake.Path
import AssetBake.Text.Blank
import AssetBake.Text.EditDistance
import AssetBake.Text.Lines

/-!
# Warnings about unknown settings

A setting that the configuration file names but the program does not know: where it stands in the
file, and which known name may have been meant.
-/

namespace AssetBake.Config

open Text

structure Warning where
  key : List Char
  file : Path
  line : Option Nat
  suggestion : Option (List Char)
deriving DecidableEq

def sections : List (String × List String) :=
  [("paths", ["input", "output", "exclude", "follow_links"]),
    ("keys", ["prefix", "joiner", "names"]),
    ("literal", ["strategy", "delimiter"]),
    ("header", ["table", "guard", "guard_macro"])]

/-- The name in a line of the form `[name]`. -/
def headerName? (line : List Char) : Option (List Char) :=
  match line with
  | '[' :: rest => if rest.getLast? = some ']' then some (trim rest.dropLast) else none
  | _ => none

def assigns (key line : List Char) : Bool :=
  key.isPrefixOf line && (trimStart (line.drop key.length)).head? == some '='

/-- Looks through the lines from number `n` on, `current` being the section they belong to. -/
def locateFrom (wanted : Option (List Char)) (key : List Char) (n : Nat)
    (current : Option (List Char)) : List (List Char) → Option Nat
  | [] => none
  | line :: rest =>
    let line := trim line
    match headerName? line with
    | some name =>
      if wanted = none ∧ name = key then some n else locateFrom wanted key (n + 1) (some name) rest
    | none =>
      if assigns key line ∧ current = wanted then some n
      else locateFrom wanted key (n + 1) current rest

/-- The number of the line on which a key of a section, or a section itself, seems to stand. -/
def locate (content : List Char) (wanted : Option (List Char)) (key : List Char) : Option Nat :=
  locateFrom wanted key 1 none (plainLines content)

/-- The known names that could stand in place of an entry of the section, or of a section. -/
def candidates (wanted : Option (List Char)) : List (List Char) :=
  match wanted with
  | none => sections.map fun s => s.1.toList
  | some name =>
    match sections.find? fun s => s.1.toList == name with
    | some (_, keys) => keys.map (·.toList)
    | none => []

/-- Whether the first of two names with distances is nearer, or as near and first in order. -/
def nearer (a b : Nat × List Char) : Bool :=
  a.1 < b.1 || (a.1 == b.1 && String.ofList a.2 ≤ String.ofList b.2)

def nearest? : List (Nat × List Char) → Option (Nat × List Char)
  | [] => none
  | a :: rest =>
    match nearest? rest with
    | none => some a
    | some b => some (if nearer a b then a else b)

/-- The known name that is nearest to an unknown one, if at most two edits lead to it. -/
def suggest? (wanted : Option (List Char)) (unknown : List Char) : Option (List Char) :=
  let near := (candidates wanted).map fun c => (editDistance unknown c, c)
  (nearest? (near.filter fun c => c.1 ≤ 2)).map (·.2)

/-- The section of a dotted name, if it has one, and its last part. -/
def splitDotted (name : List Char) : Option (List Char) × List Char :=
  match name.dropWhile (· ≠ '.') with
  | [] => (none, name)
  | _ :: rest =>
    (some (name.takeWhile (· ≠ '.')), (rest.reverse.takeWhile (· ≠ '.')).reverse)

def Warning.of (file : Path) (content : List Char) (dotted : List Char) : Warning :=
  let (wanted, key) := splitDotted dotted
  ⟨key, file, locate content wanted key, suggest? wanted key⟩

end AssetBake.Config
