import AssetBake.Config.Decode
import AssetBake.Config.Warning
import AssetBake.Toml.Excerpt
import AssetBake.Toml.Parser

/-!
# Configuration files

The settings that the text of a file gives, with a warning for every entry that is unknown.
-/

namespace AssetBake.Config

/-- Why a file that is no text gives no settings. -/
def invalidText : String := "stream did not contain valid UTF-8"

def ofText (file : Path) (text : List Char) : Except Failure (Config × List Warning) :=
  match Toml.parse? text with
  | none => .error (.notToml file)
  | some document =>
    match ofDocument document with
    | .error fault =>
      .error (.invalidConfig file (Toml.excerpt text fault.span fault.message))
    | .ok reading => .ok (reading.config, reading.unknown.map (Warning.of file text))

def ofBytes (file : Path) (bytes : List UInt8) : Except Failure (Config × List Warning) :=
  match Text.Utf8.decode? bytes with
  | none => .error (.invalidConfig file invalidText)
  | some text => ofText file text.toList

end AssetBake.Config
