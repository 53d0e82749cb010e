import AssetBake.Table

/-!
# Outcomes

What a run reports when it ends well.
-/

namespace AssetBake

/-- What became of the destination. -/
inductive WriteOutcome
  | written
  | unchanged
deriving DecidableEq

def WriteOutcome.word : WriteOutcome → String
  | written => "written"
  | unchanged => "unchanged"

structure BakeReport where
  assets : Nat
  contentBytes : Nat
  output : Path
  outcome : WriteOutcome
  hash : String
deriving DecidableEq

/-- How the header on disk compares with a fresh one. -/
inductive Freshness
  | upToDate
  | stale (existing : String)
  | missing
deriving DecidableEq

def Freshness.word : Freshness → String
  | upToDate => "up_to_date"
  | stale _ => "stale"
  | missing => "missing"

structure CheckReport where
  assets : Nat
  artifact : Artifact
  freshness : Freshness
deriving DecidableEq

def CheckReport.isUpToDate (report : CheckReport) : Bool :=
  report.freshness == .upToDate

end AssetBake
