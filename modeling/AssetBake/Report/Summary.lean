import AssetBake.Outcome
import AssetBake.Terminal

/-!
# Summaries

The lines a person reads at the end of a run.
-/

namespace AssetBake.Report

open Terminal

def files (n : Nat) : String :=
  toString n ++ if n = 1 then " file" else " files"

def generateSummary (caps : Capabilities) (report : BakeReport) : String :=
  let verb := match report.outcome with
    | .written => "Wrote"
    | .unchanged => "Up to date:"
  caps.icon .success .success ++ " " ++ verb ++ " " ++ report.output.display ++ " (" ++
    files report.assets ++ ", " ++ toString report.contentBytes ++ " bytes)\n  " ++
    paint caps.color .dim report.hash ++ "\n"

def checkResult (caps : Capabilities) (report : CheckReport) : String :=
  let path := report.artifact.path.display
  match report.freshness with
  | .upToDate =>
    caps.icon .success .success ++ " " ++ path ++ " is up to date (" ++ files report.assets ++ ")\n"
  | .stale _ =>
    caps.icon .error .error ++ " " ++ path ++ " is out of date; run 'stdbake generate'\n"
  | .missing =>
    caps.icon .error .error ++ " " ++ path ++ " does not exist; run 'stdbake generate'\n"

/-- The characters with spaces behind them up to a width. -/
def padTo (width : Nat) (s : List Char) : List Char :=
  s ++ List.replicate (width - s.length) ' '

/-- One line for each file: its key, an arrow and its path, the keys padded to the size of the
longest. -/
def keyList (caps : Capabilities) (planned : List Planned) : String :=
  let width := (planned.map fun p => (String.ofList p.key).utf8ByteSize).foldl max 0
  String.join (planned.map fun p =>
    String.ofList (padTo width p.key) ++ "  " ++ caps.icon .dim .arrow ++ "  " ++
      p.source.relative.componentText ++ "\n")

end AssetBake.Report
