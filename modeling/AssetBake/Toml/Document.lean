import AssetBake.Toml.Value

/-!
# TOML documents

The tables of a document as they grow line by line. A table may be given its header once, may be made
by dotted keys only where it is used, and no name is given two values.
-/

namespace AssetBake.Toml

namespace Table

def replace (t : Table) (name : List Char) (item : Item) : Table :=
  { t with entries := t.entries.map fun e => if e.1.text = name then (e.1, item) else e }

def remove (t : Table) (name : List Char) : Table :=
  { t with entries := t.entries.filter fun e => e.1.text != name }

def append (t : Table) (key : Key) (item : Item) : Table :=
  { t with entries := t.entries ++ [(key, item)] }

variable {β : Type}

/-- Changes the table at the end of a path, making the tables on the way that are missing. Dotted
keys may not reach into a table that has its own header, and nothing may reach into a value. -/
def alter (dotted : Bool) (change : Table → Option (Table × β)) :
    List Key → Table → Option (Table × β)
  | [], t => change t
  | key :: path, t =>
    match t.find? key.text with
    | none => do
      let (sub, b) ← alter dotted change path ⟨if dotted then .dotted else .implied, none, []⟩
      return (t.append key sub.item, b)
    | some (.table kind span entries) =>
      if kind = .inline ∨ (dotted ∧ kind = .headed) then none
      else do
        let (sub, b) ← alter dotted change path ⟨kind, span, entries⟩
        return (t.replace key.text sub.item, b)
    | some (.tables elements) =>
      match elements.getLast? with
      | some (.table kind span entries) => do
        let (sub, b) ← alter dotted change path ⟨kind, span, entries⟩
        return (t.replace key.text (.tables (elements.dropLast ++ [sub.item])), b)
      | _ => none
    | some _ => none

/-- Gives a dotted name a value. -/
def define (t : Table) (path : List Key) (key : Key) (value : Item) : Option Table := do
  let insert (t : Table) : Option (Table × Unit) :=
    if (t.kind = .dotted ↔ path = []) ∨ (t.find? key.text).isSome then none
    else some (t.append key value, ())
  let (t, ()) ← t.alter true insert path
  return t

end Table

/-- A name with dots: the tables on the way, and the name in the last of them. -/
structure DottedKey where
  path : List Key
  last : Key

/-- A table between braces. -/
def inlineTable? (span : Span) (pairs : List (DottedKey × Item)) : Option Item := do
  let start : Table := ⟨.inline, some span, []⟩
  let t ← pairs.foldlM (fun (t : Table) (name, value) => t.define name.path name.last value) start
  return t.item

/-- Where the table that is being filled belongs. -/
inductive Place
  | document
  | table (name : DottedKey)
  | element (name : DottedKey)

/-- A document that is being read. -/
structure Draft where
  /-- The tables that are complete. -/
  root : Table
  current : Table
  place : Place

namespace Draft

def empty : Draft :=
  ⟨⟨.headed, none, []⟩, ⟨.headed, none, []⟩, .document⟩

/-- Puts the table that is being filled where it belongs. -/
def close (draft : Draft) : Option Table :=
  match draft.place with
  | .document => some draft.current
  | .table name => do
    let put (t : Table) : Option (Table × Unit) :=
      if (t.find? name.last.text).isSome then none
      else some (t.append name.last draft.current.item, ())
    let (root, ()) ← draft.root.alter false put name.path
    return root
  | .element name => do
    let put (t : Table) : Option (Table × Unit) :=
      match t.find? name.last.text with
      | none => some (t.append name.last (.tables [draft.current.item]), ())
      | some (.tables elements) =>
        some (t.replace name.last.text (.tables (elements ++ [draft.current.item])), ())
      | some _ => none
    let (root, ()) ← draft.root.alter false put name.path
    return root

/-- Begins the table of a header. A table that came to be on the way of a longer header is taken up
again, and moves to the end. -/
def header (draft : Draft) (name : DottedKey) (span : Span) : Option Draft := do
  let root ← draft.close
  let takeOut (t : Table) : Option (Table × List (Key × Item)) :=
    match t.find? name.last.text with
    | none => some (t, [])
    | some (.table .implied _ entries) => some (t.remove name.last.text, entries)
    | some _ => none
  let (root, entries) ← root.alter false takeOut name.path
  return ⟨root, ⟨.headed, some span, entries⟩, .table name⟩

/-- Begins one more table of a header between double brackets. -/
def elementHeader (draft : Draft) (name : DottedKey) (span : Span) : Option Draft := do
  let root ← draft.close
  let reserve (t : Table) : Option (Table × Unit) :=
    match t.find? name.last.text with
    | none => some (t.append name.last (.tables []), ())
    | some (.tables _) => some (t, ())
    | some _ => none
  let (root, ()) ← root.alter false reserve name.path
  return ⟨root, ⟨.headed, some span, []⟩, .element name⟩

/-- Gives a name of the table that is being filled a value. -/
def assign (draft : Draft) (name : DottedKey) (value : Item) : Option Draft := do
  let current := { draft.current with span := Span.cover draft.current.span value.span? }
  let current ← current.define name.path name.last value
  return { draft with current }

end Draft

end AssetBake.Toml
