import AssetBake.Proofs.Config.Fields
import AssetBake.Proofs.Text.Lowercase
import AssetBake.Session
import Mathlib.Data.List.Find

/-!
# Layers of settings

Where each setting of a run comes from. The command line decides before the environment, the
environment before the configuration file, and what none of them gives has its standard value. The
exclude list is the one setting that two layers make up together, and no layer can turn the following
of links off again.
-/

namespace AssetBake

open Toml

namespace Config

/-! ### The configuration file -/

/-- A setting is the value that is written at its spot, or the standard one if none is. -/
def Takes {α : Type} (config : Config) (entries : List (Key × Item)) (spot : Spot)
    (decode : Item → Decoded α) (get : Config → α) : Prop :=
  Chosen decode (spot.find? entries) (get standard) (get config)

theorem Governs.takes {α : Type} {spot : Spot} {decode : Item → Decoded α} {get : Config → α}
    (hgoverns : Governs spot decode get) {document : Toml.Table} {reading : Reading}
    (h : ofDocument document = .ok reading) :
    reading.config.Takes document.entries spot decode get :=
  hgoverns.chosen h

/-- What a variable stands for that holds one of a few words, its ASCII letters in any case. -/
def wordIn? {α : Type} (env : Environment) (name : String) (words : List (String × α)) : Option α :=
  (env.get? name).bind fun text =>
    (words.find? fun w => w.1.toList == text.toList.map Char.toLower).map (·.2)

/-- The settings of a run, made of what is below, the environment and the command line. -/
structure Layered (below : Config) (env : Environment) (line : Overlay) (config : Config) :
    Prop where
  input : config.input =
    line.input.getD (((env.get? "STDBAKE_INPUT").map .ofString).getD below.input)
  output : config.output =
    line.output.getD (((env.get? "STDBAKE_OUTPUT").map .ofString).getD below.output)
  exclude : config.exclude = below.exclude ++ line.exclude
  followLinks : config.followLinks = true ↔ below.followLinks = true ∨ line.followLinks = true
  lead : config.keys.lead =
    line.lead.getD (((env.get? "STDBAKE_PREFIX").map String.toList).getD below.keys.lead)
  joiner : config.keys.joiner =
    line.joiner.getD (((env.get? "STDBAKE_JOINER").map String.toList).getD below.keys.joiner)
  names : config.keys.policy = line.names.getD
    ((wordIn? env "STDBAKE_NAMES" [("reject", .reject), ("sanitize", .sanitize)]).getD
      below.keys.policy)
  strategy : config.literals.strategy = line.strategy.getD
    ((wordIn? env "STDBAKE_STRATEGY" [("raw", .raw), ("escaped", .escaped)]).getD
      below.literals.strategy)
  delimiter : config.literals.delimiter = line.delimiter.getD below.literals.delimiter
  table : config.table = line.table.getD below.table
  guard : config.guard = line.guard.getD
    ((wordIn? env "STDBAKE_GUARD" [("pragma", .pragma), ("macro", .define)]).getD below.guard)
  guardName : config.guardName = below.guardName

/-- The layers leave nothing open. -/
theorem Layered.eq {below config other : Config} {env : Environment} {line : Overlay}
    (h : Layered below env line config) (hother : Layered below env line other) :
    config = other := by
  have hlinks : config.followLinks = other.followLinks := by
    rw [Bool.eq_iff_iff, h.followLinks, hother.followLinks]
  obtain ⟨_, _, _, _, ⟨_, _, _⟩, ⟨_, _⟩, _, _, _⟩ := config
  obtain ⟨_, _, _, _, ⟨_, _, _⟩, ⟨_, _⟩, _, _, _⟩ := other
  simp only [Config.mk.injEq, KeyStyle.mk.injEq, LiteralStyle.mk.injEq]
  exact ⟨h.input.trans hother.input.symm, h.output.trans hother.output.symm,
    h.exclude.trans hother.exclude.symm, hlinks,
    ⟨h.lead.trans hother.lead.symm, h.joiner.trans hother.joiner.symm,
      h.names.trans hother.names.symm⟩,
    ⟨h.strategy.trans hother.strategy.symm, h.delimiter.trans hother.delimiter.symm⟩,
    h.table.trans hother.table.symm, h.guard.trans hother.guard.symm,
    h.guardName.trans hother.guardName.symm⟩

end Config

namespace Session

variable {t : FileTree} {around : Surroundings}

end Session

end AssetBake
