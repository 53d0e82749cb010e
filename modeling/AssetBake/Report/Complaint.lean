import AssetBake.Config.Warning
import AssetBake.Failure
import AssetBake.Terminal

/-!
# Complaints

Failures and warnings as the lines a person reads, with a hint where a flag or a new name mends it.
-/

namespace AssetBake.Report

open Terminal

def hint? : Failure → Option String
  | .rootNotFound _ => some "pass --input DIR or set paths.input in stdbake.toml"
  | .duplicateKey .. => some "rename one of the files, or skip one with --exclude"
  | .invalidAssetName .. =>
    some "rename the file, or pass --names sanitize to replace invalid characters"
  | .unsafeDelimiterCollision .. =>
    some "pass --delimiter with a sequence the file does not contain, or --strategy escaped"
  | _ => none

def complaint (caps : Capabilities) (failure : Failure) : String :=
  let hint := match hint? failure with
    | some text => "  " ++ paint caps.color .info "hint:" ++ " " ++ text ++ "\n"
    | none => ""
  caps.icon .error .error ++ " " ++ failure.message ++ "\n" ++ hint

/-- An error of another kind, with its causes. -/
def foreignComplaint (caps : Capabilities) (causes : List String) : String :=
  caps.icon .error .error ++ " " ++ ": ".intercalate causes ++ "\n"

def settingWarning (caps : Capabilities) (w : Config.Warning) : String :=
  let line := match w.line with
    | some n => ":" ++ toString n
    | none => ""
  let hint := match w.suggestion with
    | some name => "   Did you mean '" ++ String.ofList name ++ "'?\n\n"
    | none => ""
  caps.icon .warning .warning ++ " Unknown config key '" ++ String.ofList w.key ++ "' in " ++
    w.file.display ++ line ++ "\n" ++ hint

end AssetBake.Report
