import AssetBake.Failure
import AssetBake.Key

/-!
# The keys of one run

Every key has one owner; a second path that asks for it is refused.
-/

namespace AssetBake

/-- The keys taken so far, each with the path that owns it. -/
structure Registry where
  owners : List (List Char × Path)
deriving Inhabited

namespace Registry

def empty : Registry :=
  ⟨[]⟩

def size (keys : Registry) : Nat :=
  keys.owners.length

def isEmpty (keys : Registry) : Bool :=
  keys.owners.isEmpty

def owner? (keys : Registry) (key : List Char) : Option Path :=
  keys.owners.lookup key

/-- Gives the key to the path, unless another path owns it already. -/
def claim (keys : Registry) (key : List Char) (path : Path) : Except Failure Registry :=
  match keys.owner? key with
  | some first => .error (.duplicateKey (String.ofList key) first path)
  | none => .ok ⟨(key, path) :: keys.owners⟩

end Registry

/-- The key of the file at a relative path, or the failure of a run that meets it. -/
def KeyStyle.keyOf (style : KeyStyle) (relative : Path) : Except Failure (List Char) :=
  match style.derive relative with
  | .ok key => .ok key
  | .error fault => .error (.invalidAssetName relative fault.message)

end AssetBake
