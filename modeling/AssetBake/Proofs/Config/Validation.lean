import Mathlib.Tactic.MkIffOfInductiveProp
import AssetBake.Config
import AssetBake.Proofs.Fallible

/-!
# Settings that are accepted

Settings are checked one after another, and accepted if each of them passes on its own. No check
compares two settings with each other.
-/

namespace AssetBake

open Text Literal

namespace Config

variable {config : Config} {source : Path}

/-- Every setting is of the form that its check asks for. -/
@[mk_iff]
structure IsAccepted (config : Config) : Prop where
  lead : ∀ c ∈ config.keys.lead, isKeyChar c = true
  joiner_ne_nil : config.keys.joiner ≠ []
  joiner : ∀ c ∈ config.keys.joiner, isKeyChar c = true
  delimiter : checkDelimiter config.literals.delimiter = .ok ()
  table : isIdentifier config.table = true
  guardName : config.guard = .define → isIdentifier config.effectiveGuardName = true
  exclude : ∃ excludes, ExcludeList.ofLines config.input config.exclude = .ok excludes

theorem check_eq_ok_iff : config.check = .ok () ↔ config.IsAccepted := by
  rw [isAccepted_iff, ← find?_not_eq_none_iff, ← find?_not_eq_none_iff, check]
  cases config.keys.lead.find? (fun c => !isKeyChar c) with
  | some c => simp
  | none =>
    cases config.keys.joiner with
    | nil => simp
    | cons first others =>
      cases (first :: others).find? (fun c => !isKeyChar c) with
      | some c => simp
      | none =>
        cases checkDelimiter config.literals.delimiter with
        | error fault => simp
        | ok =>
          cases isIdentifier config.table with
          | false => simp
          | true =>
            cases config.guard with
            | pragma => cases ExcludeList.ofLines config.input config.exclude <;> simp
            | define =>
              cases isIdentifier config.effectiveGuardName with
              | false => simp
              | true => cases ExcludeList.ofLines config.input config.exclude <;> simp

/-- Validation accepts just the settings that pass every check. -/
theorem validate_eq_ok_iff : config.validate source = .ok () ↔ config.IsAccepted := by
  rw [← check_eq_ok_iff, validate]
  cases config.check <;> simp

end Config

end AssetBake
