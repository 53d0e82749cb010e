import AssetBake.Path

/-!
# Globs

A pattern for paths, and the paths it matches. A pattern is a list of tokens; matching follows, token
by token, the set of ends of the path that are still to be matched, and succeeds if the empty end is
among the last ones. `*` and `?` stop at a slash, `**` between slashes does not.
-/

namespace AssetBake.Glob

open Text

inductive Token
  | literal (c : Char)
  /-- One byte, but no slash. -/
  | any
  /-- Any bytes without a slash. -/
  | zeroOrMore
  /-- `**` and a slash at the start: nothing, or any directories. -/
  | leadingDirectories
  /-- A slash and `**` at the end: a slash and anything. -/
  | trailingDirectories
  /-- `**` between slashes: a slash, or any directories between two. -/
  | innerDirectories
  /-- One byte in, or outside, some ranges of characters. -/
  | oneOf (negated : Bool) (ranges : List (Char × Char))
  /-- One of several patterns. -/
  | alternatives (branches : List (List Token))

/-- The ends that begin behind a slash. -/
def behindSlashes : List UInt8 → List (List UInt8)
  | [] => []
  | b :: rest => if b = slash then rest :: behindSlashes rest else behindSlashes rest

/-- The ends that are reached by leaving out bytes up to the next slash. -/
def withinName : List UInt8 → List (List UInt8)
  | [] => [[]]
  | b :: rest => if b = slash then [b :: rest] else (b :: rest) :: withinName rest

def ends : List UInt8 → List (List UInt8)
  | [] => [[]]
  | b :: rest => (b :: rest) :: ends rest

/-- Whether a byte lies in a range of characters. A character of several bytes counts byte by byte,
and the range runs from the last byte of its first character to the first byte of its last. -/
def inRange (b : UInt8) (range : Char × Char) : Bool :=
  let first := Utf8.encode (String.singleton range.1)
  let last := Utf8.encode (String.singleton range.2)
  if range.1 = range.2 then first.contains b
  else
    first.dropLast.contains b || last.tail.contains b ||
      (first.getLastD 0 ≤ b && b ≤ last.headD 0)

/-- What is left of a path after the given bytes, if it begins with them. -/
def after? : List UInt8 → List UInt8 → Option (List UInt8)
  | [], path => some path
  | _ :: _, [] => none
  | a :: bytes, b :: path => if a = b then after? bytes path else none

/-- What is left of a path after a first byte that passes the test. -/
def afterByte? (test : UInt8 → Bool) : List UInt8 → Option (List UInt8)
  | [] => none
  | b :: rest => if test b then some rest else none

mutual

/-- Whether a pattern is made of nothing but alternatives without content. -/
def isVoid : List Token → Bool
  | [] => true
  | .alternatives branches :: rest => areVoid branches && isVoid rest
  | _ :: _ => false

def areVoid : List (List Token) → Bool
  | [] => true
  | branch :: rest => isVoid branch && areVoid rest

end

mutual

/-- The ends of a path that are left when the token has matched. -/
def Token.remainders (path : List UInt8) : Token → List (List UInt8)
  | .literal c => (after? (Utf8.encode (String.singleton c)) path).toList
  | .any => (afterByte? (· != slash) path).toList
  | .zeroOrMore => withinName path
  | .leadingDirectories => path :: behindSlashes path
  | .trailingDirectories => ((afterByte? (· == slash) path).map ends).getD []
  | .innerDirectories =>
    match afterByte? (· == slash) path with
    | none => []
    | some rest => rest :: behindSlashes rest
  | .oneOf negated ranges =>
    (afterByte? (fun b => ranges.any (inRange b) != negated) path).toList
  | .alternatives branches =>
    if areVoid branches then [path] else branchRemainders path branches

/-- The ends that are left when one of the branches with content has matched. -/
def branchRemainders (path : List UInt8) : List (List Token) → List (List UInt8)
  | [] => []
  | branch :: rest =>
    (if isVoid branch then [] else patternRemainders [path] branch) ++ branchRemainders path rest

/-- The ends that are left when all tokens have matched, from any of the given ends. -/
def patternRemainders (paths : List (List UInt8)) : List Token → List (List UInt8)
  | [] => paths
  | token :: rest =>
    patternRemainders ((paths.flatMap fun path => token.remainders path).eraseDups) rest

end

/-- Whether the pattern matches the path; `**` alone matches everything. -/
def isMatch (pattern : List Token) (path : List UInt8) : Bool :=
  match pattern with
  | [.leadingDirectories] => true
  | _ => (patternRemainders [path] pattern).contains []

end AssetBake.Glob
