import AssetBake.Config.Warning
import AssetBake.Failure
import AssetBake.Outcome
import AssetBake.Report.Json

/-!
# Events

What a run reports to other programs, each event one JSON object on a line of its own.
-/

namespace AssetBake.Report

def version : String := "0.1.0"

inductive Event
  | start (command : String) (input output : Path)
  | asset (planned : Planned)
  | warning (w : Config.Warning)
  | listed (assets : Nat)
  | generated (report : BakeReport)
  | checked (report : CheckReport)
  | failed (failure : Failure)
  /-- An error that is no failure of the program's own, from the outermost cause inwards. -/
  | foreign (causes : List String)

namespace Event

def text (s : String) : JsonValue :=
  .text s.toList

/-- A field that is left out when there is no value. -/
def field? (name : String) (value : Option JsonValue) : List (String × JsonValue) :=
  (value.map fun v => (name, v)).toList

/-- The fields of an event, in the order in which they are written. -/
def fields : Event → List (String × JsonValue)
  | start command input output =>
    [("event", text "start"), ("command", text command), ("version", text version),
      ("input", text input.display), ("output", text output.display)]
  | asset planned =>
    [("event", text "asset"), ("key", .text planned.key),
      ("path", text planned.source.relative.componentText)]
  | warning w =>
    [("event", text "warning"), ("key", .text w.key), ("file", text w.file.display)] ++
      field? "line" (w.line.map .number) ++ field? "suggestion" (w.suggestion.map .text)
  | listed assets =>
    [("event", text "complete"), ("command", text "list"), ("success", .truth true),
      ("assets", .number assets)]
  | generated report =>
    [("event", text "complete"), ("command", text "generate"), ("success", .truth true),
      ("assets", .number report.assets), ("content_bytes", .number report.contentBytes),
      ("outcome", text report.outcome.word), ("hash", text report.hash)]
  | checked report =>
    [("event", text "complete"), ("command", text "check"), ("success", .truth report.isUpToDate),
      ("assets", .number report.assets), ("status", text report.freshness.word),
      ("hash", text report.artifact.hash)]
  | failed failure =>
    [("event", text "error"), ("kind", text failure.kind), ("message", text failure.message)] ++
      field? "path" (failure.path?.map fun p => text p.display)
  | foreign causes =>
    [("event", text "error"), ("kind", text "error"), ("message", text (causes.headD ""))]

def line (event : Event) : String :=
  String.ofList (jsonLine event.fields)

end Event

end AssetBake.Report
