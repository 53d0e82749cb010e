import AssetBake.Config
import AssetBake.Toml.Value
import AssetBake.Text.Quoted

/-!
# Settings of a document

Each section of a configuration file sets some fields; what a file leaves out keeps its standard
value. The entries are read in the order in which they stand, and the first of the wrong type refuses
the file. A section may be written as an array of its fields, too.
-/

namespace AssetBake.Config

open Toml

/-- A value of the wrong type or with the wrong word, and where it stands. -/
structure TypeFault where
  span : Option Span
  message : String

abbrev Decoded (α : Type) := Except TypeFault α

/-- How a fault names the value that it found. -/
def describe : Item → String
  | .string _ s => "string " ++ Text.quote (String.ofList s)
  | .integer _ n => "integer `" ++ toString n ++ "`"
  | .float _ x => "floating point `" ++ String.ofList x.text ++ "`"
  | .boolean _ b => "boolean `" ++ toString b ++ "`"
  | .array .. => "sequence"
  | .tables _ => "sequence"
  | .moment .. => "map"
  | .table .. => "map"

def wrongType {α : Type} (item : Item) (expected : String) : Decoded α :=
  .error ⟨item.span?, "invalid type: " ++ describe item ++ ", expected " ++ expected⟩

def decodeText (item : Item) : Decoded (List Char) :=
  match item with
  | .string _ s => .ok s
  | _ => wrongType item "a string"

def decodePath (item : Item) : Decoded Path :=
  match item with
  | .string _ s => .ok (.ofString (String.ofList s))
  | _ => wrongType item "path string"

def decodeBool (item : Item) : Decoded Bool :=
  match item with
  | .boolean _ b => .ok b
  | _ => wrongType item "a boolean"

/-- The elements of an item that holds a sequence. -/
def sequence? : Item → Option (List Item)
  | .array _ items => some items
  | .tables elements => some elements
  | _ => none

/-- A fault placed at an item, if it has no place yet. -/
def placedAt {α : Type} (span : Option Span) (decoded : Decoded α) : Decoded α :=
  decoded.mapError fun fault => { fault with span := fault.span.or span }

def decodeTexts (item : Item) : Decoded (List (List Char)) :=
  match sequence? item with
  | some items => items.mapM decodeText
  | none => wrongType item "a sequence"

/-! ### Words -/

def decodeWord {α : Type} (words : List (String × α)) (span : Option Span) (word : List Char) :
    Decoded α :=
  match words.find? fun w => w.1.toList == word with
  | some (_, a) => .ok a
  | none =>
    let expected := " or ".intercalate (words.map fun w => "`" ++ w.1 ++ "`")
    .error ⟨span, "unknown variant `" ++ String.ofList word ++ "`, expected " ++ expected⟩

/-- Accepts what may be written as the value of a word that has none. -/
def decodeNothing (item : Item) : Decoded Unit :=
  let wrong (found : String) : Decoded Unit := .error ⟨item.span?, "expected table, found " ++ found⟩
  match item with
  | .table _ _ entries =>
    if entries.isEmpty then .ok () else .error ⟨item.span?, "expected empty table"⟩
  | .array _ items =>
    if items.isEmpty then .ok () else .error ⟨item.span?, "expected empty table"⟩
  | .tables elements =>
    if elements.isEmpty then .ok () else .error ⟨item.span?, "expected empty array"⟩
  | .string .. => wrong "string"
  | .integer .. => wrong "integer"
  | .float .. => wrong "float"
  | .boolean .. => wrong "boolean"
  | .moment .. => wrong "datetime"

/-- A word, alone or as the one key of a table with nothing in it. -/
def decodeChoice {α : Type} (words : List (String × α)) (item : Item) : Decoded α :=
  match item with
  | .string span s => decodeWord words (some span) s
  | .table _ span entries =>
    match entries with
    | [] => .error ⟨span, "wanted exactly 1 element, found 0 elements"⟩
    | [(key, value)] => do
      let a ← decodeWord words (some key.span) key.text
      placedAt span (decodeNothing value)
      return a
    | _ => .error ⟨span, "wanted exactly 1 element, more than 1 element"⟩
  | _ => .error ⟨item.span?, "wanted string or table"⟩

/-! ### Sections -/

/-- A field of a section: its name, and how its value changes the settings. -/
structure Field where
  name : String
  decode : Item → Config → Decoded Config

/-- A field whose value is decoded and then put into the settings. -/
def Field.of {α : Type} (name : String) (decode : Item → Decoded α) (put : α → Config → Config) :
    Field :=
  ⟨name, fun item config => (decode item).map fun a => put a config⟩

/-- The sections with what a fault calls them and their fields. -/
def sectionFields : List (String × String × List Field) :=
  [("paths", "struct PathsConfig", [
      .of "input" decodePath fun p c => { c with input := p },
      .of "output" decodePath fun p c => { c with output := p },
      .of "exclude" decodeTexts fun lines c => { c with exclude := lines },
      .of "follow_links" decodeBool fun b c => { c with followLinks := b }]),
    ("keys", "struct KeysConfig", [
      .of "prefix" decodeText fun s c => { c with keys := { c.keys with lead := s } },
      .of "joiner" decodeText fun s c => { c with keys := { c.keys with joiner := s } },
      .of "names" (decodeChoice [("reject", .reject), ("sanitize", .sanitize)]) fun p c =>
        { c with keys := { c.keys with policy := p } }]),
    ("literal", "struct LiteralConfig", [
      .of "strategy" (decodeChoice [("raw", .raw), ("escaped", .escaped)]) fun s c =>
        { c with literals := { c.literals with strategy := s } },
      .of "delimiter" decodeText fun s c =>
        { c with literals := { c.literals with delimiter := s } }]),
    ("header", "struct HeaderConfig", [
      .of "table" decodeText fun s c => { c with table := s },
      .of "guard" (decodeChoice [("pragma", .pragma), ("macro", .define)]) fun g c =>
        { c with guard := g },
      .of "guard_macro" decodeText fun s c => { c with guardName := some s }])]

/-- Settings that are being read, and the dotted names of the entries that are unknown. -/
structure Reading where
  config : Config
  unknown : List (List Char)

def readEntries (name : List Char) (fields : List Field) (reading : Reading) :
    List (Key × Item) → Decoded Reading
  | [] => .ok reading
  | (key, item) :: rest =>
    match fields.find? fun f => f.name.toList == key.text with
    | some field => do
      let config ← placedAt (item.span?.or (some key.span)) (field.decode item reading.config)
      readEntries name fields { reading with config } rest
    | none =>
      let unknown := reading.unknown ++ [name ++ '.' :: key.text]
      readEntries name fields { reading with unknown } rest

/-- Reads the elements of a section that is written as an array; more elements than fields do no
harm. -/
def readElements (fields : List Field) (config : Config) : List Item → Decoded Config
  | [] => .ok config
  | item :: rest =>
    match fields with
    | [] => .ok config
    | field :: fields => do
      readElements fields (← placedAt item.span? (field.decode item config)) rest

/-- The one entry of a date where a table is wanted. -/
def momentEntry : String := "$__toml_private_datetime"

/-- Reads a section. A date counts as a table whose one entry no section knows. -/
def readSection (name : List Char) (described : String) (fields : List Field) (reading : Reading)
    (item : Item) : Decoded Reading :=
  match item with
  | .table _ _ entries => readEntries name fields reading entries
  | .moment .. =>
    .ok { reading with unknown := reading.unknown ++ [name ++ '.' :: momentEntry.toList] }
  | _ =>
    match sequence? item with
    | some items => do
      let config ← readElements fields reading.config items
      return { reading with config }
    | none => wrongType item described

def readSections (reading : Reading) : List (Key × Item) → Decoded Reading
  | [] => .ok reading
  | (key, item) :: rest =>
    match sectionFields.find? fun s => s.1.toList == key.text with
    | some (_, described, fields) => do
      let reading ← placedAt (item.span?.or (some key.span))
        (readSection key.text described fields reading item)
      readSections reading rest
    | none => readSections { reading with unknown := reading.unknown ++ [key.text] } rest

def ofDocument (document : Toml.Table) : Decoded Reading :=
  readSections ⟨.standard, []⟩ document.entries

end AssetBake.Config
