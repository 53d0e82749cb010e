import AssetBake.Text.Utf8
import AssetBake.Toml.Document
import AssetBake.Toml.Scalar

/-!
# Reading TOML

A document is read line by line. Places are counted in bytes from its start.
-/

namespace AssetBake.Toml

open Text

/-- Readers know the size of the document in bytes and work on the characters that are left. -/
abbrev Reader := ReaderT Nat (StateT (List Char) Option)

/-- Arrays and inline tables may stand in each other up to this depth. -/
def maxDepth : Nat := 79

/-- The number of parts that a dotted name may have. -/
def maxKeyLength : Nat := 79

namespace Reader

/-- The place of the next character. -/
def here : Reader Nat := do
  return (← read) - Utf8.byteSize (← get)

def peek? : Reader (Option Char) := do
  return (← get).head?

/-- Reads one character that has to be the given one. -/
def expect (c : Char) : Reader Unit := do
  match ← get with
  | d :: rest => if c = d then set rest else failure
  | [] => failure

/-- Reads the character if it comes next. -/
def accept (c : Char) : Reader Bool := do
  match ← get with
  | d :: rest => if c = d then do set rest; return true else return false
  | [] => return false

def skipWs : Reader Unit :=
  modify fun s => s.dropWhile isWs

/-- Reads with a function that gives what it has read and what follows. -/
def readWith {α : Type} (f : List Char → Option (α × List Char)) : Reader α := do
  match f (← get) with
  | some (a, rest) => set rest; return a
  | none => failure

/-- What has been read since a place. -/
def since (first : Nat) : Reader Span := do
  return ⟨first, ← here⟩

/-! ### Between values -/

/-- The characters from the end of a comment on. -/
def afterComment (s : List Char) : List Char :=
  match s with
  | '#' :: rest => rest.dropWhile isLineChar
  | _ => s

/-- Reads blanks and a comment up to the end of the line. -/
def endLine : Reader Unit := do
  skipWs
  modify afterComment
  match ← get with
  | [] => return
  | '\n' :: rest => set rest
  | '\r' :: '\n' :: rest => set rest
  | _ => failure

/-- The characters after blanks, line ends and comments. -/
def afterFiller (inComment : Bool) : List Char → List Char
  | [] => []
  | c :: rest =>
    if c = '\n' then afterFiller false rest
    else if c = '\r' ∧ rest.head? = some '\n' then afterFiller false rest
    else if inComment then if isLineChar c then afterFiller true rest else c :: rest
    else if isWs c then afterFiller false rest
    else if c = '#' then afterFiller true rest
    else c :: rest

/-! ### Keys -/

def isBareKeyChar (c : Char) : Bool :=
  c.isAlphanum || c == '_' || c == '-'

def simpleKey : Reader Key := do
  let first ← here
  let text ← readWith fun s =>
    match s with
    | '"' :: rest => basicString rest
    | '\'' :: rest => literalString rest
    | _ =>
      let name := s.takeWhile isBareKeyChar
      if name.isEmpty then none else some (name, s.dropWhile isBareKeyChar)
  return ⟨text, ← since first⟩

/-- The parts of a dotted name, no more than `fuel` of them. -/
def keyParts : Nat → Reader (List Key)
  | 0 => failure
  | fuel + 1 => do
    skipWs
    let key ← simpleKey
    skipWs
    if ← accept '.' then return key :: (← keyParts fuel) else return [key]

def dottedKey : Reader DottedKey := do
  let keys ← keyParts maxKeyLength
  match keys.getLast? with
  | some last => return ⟨keys.dropLast, last⟩
  | none => failure

/-! ### Values -/

/-- The items of an array from behind its bracket, no more than `fuel` of them. -/
def arrayItems (item : Reader Item) : Nat → Reader (List Item)
  | 0 => failure
  | fuel + 1 => do
    modify (afterFiller false)
    if ← accept ']' then return []
    let first ← item
    modify (afterFiller false)
    if ← accept ',' then return first :: (← arrayItems item fuel)
    expect ']'
    return [first]

/-- The entries of an inline table from behind its brace or a comma, no more than `fuel` of them. -/
def inlineEntries (item : Reader Item) : Nat → Reader (List (DottedKey × Item))
  | 0 => failure
  | fuel + 1 => do
    let key ← dottedKey
    expect '='
    skipWs
    let value ← item
    skipWs
    if ← accept ',' then return (key, value) :: (← inlineEntries item fuel)
    expect '\x7d'
    return [(key, value)]

/-- A value that holds no others. -/
def scalar : Reader Item := do
  let first ← here
  match ← peek? with
  | some '"' | some '\'' => do
    let s ← readWith readString
    return .string (← since first) s
  | _ => do
    let s ← readWith fun s => some (takeBare s)
    match bareItem? (← since first) s with
    | some item => return item
    | none => failure

/-- A value in which others may stand up to a depth. -/
def value : Nat → Reader Item
  | 0 => scalar
  | depth + 1 => do
    let first ← here
    let fuel := (← get).length
    match ← peek? with
    | some '[' => do
      expect '['
      let items ← arrayItems (value depth) fuel
      return .array (← since first) items
    | some '\x7b' => do
      expect '\x7b'
      skipWs
      let pairs ← if ← accept '\x7d' then pure [] else inlineEntries (value depth) fuel
      match inlineTable? (← since first) pairs with
      | some item => return item
      | none => failure
    | _ => scalar

/-! ### Lines -/

def assignment (draft : Draft) : Reader Draft := do
  let key ← dottedKey
  expect '='
  skipWs
  let item ← value maxDepth
  endLine
  draft.assign key item

def header (draft : Draft) : Reader Draft := do
  let first ← here
  expect '['
  if ← accept '[' then
    let key ← dottedKey
    expect ']'
    expect ']'
    let span ← since first
    endLine
    draft.elementHeader key span
  else
    let key ← dottedKey
    expect ']'
    let span ← since first
    endLine
    draft.header key span

/-- The lines of a document, no more than `fuel` of them. -/
def lines (draft : Draft) : Nat → Reader Draft
  | 0 => failure
  | fuel + 1 => do
    skipWs
    match ← peek? with
    | none => return draft
    | some c =>
      if c = '#' ∨ c = '\n' ∨ c = '\r' then
        endLine
        lines draft fuel
      else if c = '[' then lines (← header draft) fuel
      else lines (← assignment draft) fuel

/-- A document; it may begin with a byte order mark. -/
def document : Reader Table := do
  discard (accept '\ufeff')
  let fuel := (← get).length + 1
  (← lines .empty fuel).close

end Reader

/-- The document of a text, if it is one. -/
def parse? (text : List Char) : Option Table :=
  ((Reader.document.run (Utf8.byteSize text)).run text).map (·.1)

end AssetBake.Toml
