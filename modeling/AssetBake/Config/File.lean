import AssetBake.Config.Load
import AssetBake.FileTree.Resolve

/-!
# The configuration file of a run

Which file a run reads its settings from, and what it finds there.
-/

namespace AssetBake.Config

def defaultFile : Path := .ofString "stdbake.toml"

/-- The configuration file of a run: the given one, whether it exists or not, or else the one in a
directory, if it is there. -/
def discover (t : FileTree) (cwd : Location) (given : Option Path) (dir : Path) : Option Path :=
  match given with
  | some file => some file
  | none =>
    let candidate := dir.join defaultFile
    if t.isFileAt cwd candidate then some candidate else none

def load (t : FileTree) (cwd : Location) (file : Path) : Except Failure (Config × List Warning) :=
  match t.contentAt cwd file with
  | .error fault => .error (.invalidConfig file fault.message)
  | .ok bytes => ofBytes file bytes

end AssetBake.Config
