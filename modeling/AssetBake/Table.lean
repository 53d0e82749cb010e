import AssetBake.Digest
import AssetBake.Path

/-!
# Assets and their table

A file found below the input, its text once it is read, and the table from keys to texts that one
run embeds.
-/

namespace AssetBake

/-- A file found below the input directory. -/
structure Source where
  /-- The path it is read by. -/
  full : Path
  /-- Its path below the input directory. -/
  relative : Path
deriving DecidableEq

/-- A file with the key it will be stored under. -/
structure Planned where
  key : List Char
  source : Source
deriving DecidableEq

/-- A file with its key and its text. -/
structure Asset where
  key : List Char
  source : Source
  content : String
deriving DecidableEq

/-- The assets of one run, in the order of the walk. -/
structure Table where
  assets : List Asset
deriving DecidableEq

namespace Table

def size (table : Table) : Nat :=
  table.assets.length

def isEmpty (table : Table) : Bool :=
  table.assets.isEmpty

def keys (table : Table) : List (List Char) :=
  table.assets.map (·.key)

def get? (table : Table) (key : List Char) : Option String :=
  (table.assets.find? fun a => a.key == key).map (·.content)

def contentBytes (table : Table) : Nat :=
  table.assets.foldr (fun a total => a.content.utf8ByteSize + total) 0

end Table

/-- The digest of a byte string with the name of its algorithm. -/
def contentHash (bytes : List UInt8) : String :=
  "sha256:" ++ Digest.sha256 bytes

/-- A header ready to be written. -/
structure Artifact where
  path : Path
  content : String
deriving DecidableEq

def Artifact.hash (artifact : Artifact) : String :=
  contentHash (Text.Utf8.encode artifact.content)

end AssetBake
