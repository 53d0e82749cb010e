import AssetBake.Path

/-!
# Failures

Every way in which a run can fail, with the wording and the file of each. A failed run leaves the
destination as it was.
-/

namespace AssetBake

inductive Failure
  /-- The input is missing or is no directory. -/
  | rootNotFound (path : Path)
  /-- A file, or a directory on the way to it, could not be read as text. -/
  | assetReadFailure (path : Path) (reason : String)
  /-- Two files derive the same key. -/
  | duplicateKey (key : String) (first second : Path)
  /-- A relative path gives no key under the name policy. -/
  | invalidAssetName (path : Path) (reason : String)
  /-- A text contains what would end its raw literal. -/
  | unsafeDelimiterCollision (path : Path) (terminator : String)
  /-- A text cannot be written in the chosen literal form. -/
  | unsupportedContent (path : Path) (reason : String)
  /-- The destination could not be made, written or put in place. -/
  | outputWriteFailure (path : Path) (reason : String)
  | invalidConfig (file : Path) (reason : String)
  /-- A configuration file is no TOML document. Its wording stands for the refused file and the
  complaint of the parser, which are left out. -/
  | notToml (file : Path)
  /-- The system refused something else. -/
  | system (reason : String)
deriving DecidableEq

namespace Failure

def message : Failure → String
  | rootNotFound path => "input directory not found: " ++ path.display
  | assetReadFailure path reason => "failed to read asset " ++ path.display ++ ": " ++ reason
  | duplicateKey key first second =>
    "duplicate key '" ++ key ++ "': " ++ first.display ++ " and " ++ second.display ++
      " both map to it"
  | invalidAssetName path reason => "invalid asset name " ++ path.display ++ ": " ++ reason
  | unsafeDelimiterCollision path terminator =>
    "asset " ++ path.display ++ " contains the raw string terminator '" ++ terminator ++
      "'; choose another delimiter or use strategy = \"escaped\""
  | unsupportedContent path reason =>
    "asset " ++ path.display ++ " cannot be embedded: " ++ reason
  | outputWriteFailure path reason => "failed to write " ++ path.display ++ ": " ++ reason
  | invalidConfig file reason => "invalid configuration " ++ file.display ++ ": " ++ reason
  | notToml _ => "TOML syntax error"
  | system reason => "IO error: " ++ reason

def path? : Failure → Option Path
  | rootNotFound path
  | assetReadFailure path _
  | invalidAssetName path _
  | unsafeDelimiterCollision path _
  | unsupportedContent path _
  | outputWriteFailure path _ => some path
  | duplicateKey _ _ second => some second
  | invalidConfig file _ => some file
  | notToml file => some file
  | system _ => none

def kind : Failure → String
  | rootNotFound _ => "root_not_found"
  | assetReadFailure .. => "asset_read_failure"
  | duplicateKey .. => "duplicate_key"
  | invalidAssetName .. => "invalid_asset_name"
  | unsafeDelimiterCollision .. => "unsafe_delimiter_collision"
  | unsupportedContent .. => "unsupported_content"
  | outputWriteFailure .. => "output_write_failure"
  | invalidConfig .. => "invalid_config"
  | notToml _ => "invalid_config"
  | system _ => "io"

end Failure

end AssetBake
