/-!
# Workflow annotations

An error as a workflow command of GitHub: one line with a title, the file if there is one, and the
message. The characters that would end a part are written as escapes.
-/

namespace AssetBake.Report

/-- The message of a command, with its line ends escaped. -/
def escapeMessage (s : List Char) : List Char :=
  s.flatMap fun c =>
    if c = '%' then "%25".toList
    else if c = '\r' then "%0D".toList
    else if c = '\n' then "%0A".toList
    else [c]

/-- A property of a command, where colons and commas are escaped as well. -/
def escapeProperty (s : List Char) : List Char :=
  (escapeMessage s).flatMap fun c =>
    if c = ':' then "%3A".toList
    else if c = ',' then "%2C".toList
    else [c]

def annotation (file : Option (List Char)) (message : List Char) : List Char :=
  let properties := match file with
    | some name => " file=".toList ++ escapeProperty name ++ ",title=stdbake".toList
    | none => " title=stdbake".toList
  "::error".toList ++ properties ++ "::".toList ++ escapeMessage message

end AssetBake.Report
