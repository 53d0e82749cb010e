import AssetBake.Toml.Binary64

/-!
# TOML values

What a TOML document holds, each value and each key with the place where it is written.
-/

namespace AssetBake.Toml

/-- The bytes from `first` up to, not including, `last`. -/
structure Span where
  first : Nat
  last : Nat
deriving DecidableEq

structure Key where
  text : List Char
  span : Span
deriving DecidableEq

/-- How a table has come to be. -/
inductive TableKind
  /-- By its header, or as the document itself. -/
  | headed
  /-- As a step on the way of a longer header. -/
  | implied
  /-- As a step on the way of a dotted key. -/
  | dotted
  /-- Between braces. -/
  | inline
deriving DecidableEq

inductive Item
  | string (span : Span) (s : List Char)
  | integer (span : Span) (n : Int)
  | float (span : Span) (x : Binary64)
  | boolean (span : Span) (b : Bool)
  /-- A date, a time or both. -/
  | moment (span : Span) (s : List Char)
  | array (span : Span) (items : List Item)
  | table (kind : TableKind) (span : Option Span) (entries : List (Key × Item))
  /-- Tables that share one header between double brackets. -/
  | tables (elements : List Item)

/-- A table that is being filled. -/
structure Table where
  kind : TableKind
  span : Option Span
  entries : List (Key × Item)

def Table.item (t : Table) : Item :=
  .table t.kind t.span t.entries

def Table.find? (t : Table) (name : List Char) : Option Item :=
  (t.entries.find? fun e => e.1.text == name).map (·.2)

/-- The first and last place of some spans. -/
def Span.cover : Option Span → Option Span → Option Span
  | some a, some b => some ⟨a.first, b.last⟩
  | _, _ => none

/-- Where an item is written; a table made by dotted keys or longer headers is nowhere. -/
def Item.span? : Item → Option Span
  | string span _
  | integer span _
  | float span _
  | boolean span _
  | moment span _
  | array span _ => some span
  | table _ span _ => span
  | tables elements =>
    match elements.head?, elements.getLast? with
    | some (.table _ a _), some (.table _ b _) => Span.cover a b
    | _, _ => none

end AssetBake.Toml
