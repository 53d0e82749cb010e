import AssetBake.Glob

/-!
# Reading globs

A pattern text is read character by character. Groups in braces may be nested; a class in brackets
is read in a mode of its own until the bracket that closes it.
-/

namespace AssetBake.Glob

inductive Fault
  | unclosedClass
  | invalidRange (first last : Char)
  | unopenedGroup
  | unclosedGroup
  | danglingEscape
deriving DecidableEq

def Fault.message : Fault → String
  | unclosedClass => "unclosed character class; missing ']'"
  | invalidRange first last =>
    "invalid range; '" ++ first.toString ++ "' > '" ++ last.toString ++ "'"
  | unopenedGroup =>
    "unopened alternate group; missing '\x7b' (maybe escape '\x7d' with '[\x7d]'?)"
  | unclosedGroup =>
    "unclosed alternate group; missing '\x7d' (maybe escape '\x7b' with '[\x7b]'?)"
  | danglingEscape => "dangling '\\'"

/-- A group whose closing brace has not been read. -/
structure OpenGroup where
  /-- The tokens before the group, last first. -/
  outer : List Token
  /-- The branches before the one being read, last first. -/
  done : List (List Token)

structure Draft where
  /-- The tokens of the branch being read, last first. -/
  tokens : List Token
  groups : List OpenGroup

namespace Draft

def push (draft : Draft) (token : Token) : Draft :=
  ⟨token :: draft.tokens, draft.groups⟩

def openGroup (draft : Draft) : Draft :=
  ⟨[], ⟨draft.tokens, []⟩ :: draft.groups⟩

/-- Ends a branch; outside all groups a comma stands for itself. -/
def comma (draft : Draft) : Draft :=
  match draft.groups with
  | [] => draft.push (.literal ',')
  | group :: groups => ⟨[], ⟨group.outer, draft.tokens.reverse :: group.done⟩ :: groups⟩

def closeGroup? (draft : Draft) : Option Draft :=
  match draft.groups with
  | [] => none
  | group :: groups =>
    let branches := (draft.tokens.reverse :: group.done).reverse
    some ⟨.alternatives branches :: group.outer, groups⟩

/-- Two stars that reach over no slash. -/
def plainStars (draft : Draft) : Draft :=
  (draft.push .zeroOrMore).push .zeroOrMore

/-- Puts directories of any depth in place of the slash before them. -/
def replaceSlash (draft : Draft) (token : Token) : Draft :=
  match draft.tokens with
  | .leadingDirectories :: _ => draft
  | .trailingDirectories :: _ => draft
  | _ :: rest => ⟨token :: rest, draft.groups⟩
  | [] => ⟨[token], draft.groups⟩

/-- Two stars after `before` and in front of `next`; tells whether a slash after them is used up. -/
def doubleStar (draft : Draft) (before next : Option Char) : Draft × Bool :=
  if draft.tokens.isEmpty then
    if next = none ∨ next = some '/' then (draft.push .leadingDirectories, true)
    else (draft.plainStars, false)
  else if before ≠ some '/' ∧
      (draft.groups.isEmpty ∨ (before ≠ some ',' ∧ before ≠ some '\x7b')) then
    (draft.plainStars, false)
  else
    match next with
    | none => (draft.replaceSlash .trailingDirectories, false)
    | some '/' => (draft.replaceSlash .innerDirectories, true)
    | some c =>
      if (c = ',' ∨ c = '\x7d') ∧ ¬draft.groups.isEmpty then
        (draft.replaceSlash .trailingDirectories, false)
      else (draft.plainStars, false)

end Draft

/-- A class whose closing bracket has not been read. -/
structure OpenClass where
  negated : Bool
  /-- The ranges read so far, last first. -/
  ranges : List (Char × Char)
  /-- Whether no character has been read. -/
  atStart : Bool
  /-- Whether a hyphen waits for the end of its range. -/
  midRange : Bool

/-- What one more character makes of a class; `none` if it closes the class. -/
def OpenClass.next (cls : OpenClass) (c : Char) : Except Fault (Option OpenClass) :=
  if c = ']' ∧ ¬cls.atStart then .ok none
  else if c = '-' ∧ ¬cls.atStart ∧ ¬cls.midRange then .ok (some { cls with midRange := true })
  else
    match cls.midRange, cls.ranges with
    | true, (first, _) :: rest =>
      -- a bracket cannot come here, since it is read as the end of the class
      if c < first then .error (.invalidRange first c)
      else .ok (some ⟨cls.negated, (first, c) :: rest, false, false⟩)
    | _, ranges => .ok (some ⟨cls.negated, (c, c) :: ranges, false, false⟩)

/-- The token of a class; a hyphen before the closing bracket stands for itself. -/
def OpenClass.close (cls : OpenClass) : Token :=
  let ranges := if cls.midRange then ('-', '-') :: cls.ranges else cls.ranges
  .oneOf cls.negated ranges.reverse

mutual

/-- Reads on after the character `before`. -/
def scan (draft : Draft) (before : Option Char) : List Char → Except Fault (List Token)
  | [] => if draft.groups.isEmpty then .ok draft.tokens.reverse else .error .unclosedGroup
  | '?' :: rest => scan (draft.push .any) (some '?') rest
  | '*' :: '*' :: '/' :: rest =>
    match draft.doubleStar before (some '/') with
    | (next, true) => scan next (some '/') rest
    | (next, false) => scan (next.push (.literal '/')) (some '/') rest
  | '*' :: '*' :: rest => scan (draft.doubleStar before rest.head?).1 (some '*') rest
  | '*' :: rest => scan (draft.push .zeroOrMore) (some '*') rest
  | '[' :: '!' :: rest => scanClass draft ⟨true, [], true, false⟩ rest
  | '[' :: '^' :: rest => scanClass draft ⟨true, [], true, false⟩ rest
  | '[' :: rest => scanClass draft ⟨false, [], true, false⟩ rest
  | '\x7b' :: rest => scan draft.openGroup (some '\x7b') rest
  | '\x7d' :: rest =>
    match draft.closeGroup? with
    | some next => scan next (some '\x7d') rest
    | none => .error .unopenedGroup
  | ',' :: rest => scan draft.comma (some ',') rest
  | '\\' :: c :: rest => scan (draft.push (.literal c)) (some c) rest
  | ['\\'] => .error .danglingEscape
  | c :: rest => scan (draft.push (.literal c)) (some c) rest

/-- Reads on inside a class. -/
def scanClass (draft : Draft) (cls : OpenClass) : List Char → Except Fault (List Token)
  | [] => .error .unclosedClass
  | c :: rest =>
    match cls.next c with
    | .error fault => .error fault
    | .ok none => scan (draft.push cls.close) (some ']') rest
    | .ok (some next) => scanClass draft next rest

end

def parse (text : List Char) : Except Fault (List Token) :=
  scan ⟨[], []⟩ none text

end AssetBake.Glob
