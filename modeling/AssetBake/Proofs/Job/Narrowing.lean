import AssetBake.Proofs.Job.Fixpoint
import AssetBake.Proofs.Walk.Narrowing
import Mathlib

/-!
# Plans that leave out more

Lines behind the exclude list of a job, none of them beginning with `!`, only take files out of its plan:
the files that stay keep their keys and their order, and a plan that succeeds still does.
-/

namespace AssetBake

/-- The settings with more lines behind their exclude list. -/
def Config.excluding (config : Config) (lines : List (List Char)) : Config :=
  { config with exclude := config.exclude ++ lines }

/-- The layer with more lines behind those that it adds. -/
def Config.Overlay.excluding (layer : Config.Overlay) (lines : List (List Char)) : Config.Overlay :=
  { layer with exclude := layer.exclude ++ lines }

/-- The lines of a layer come last, and so do those that are added to it. -/
theorem Config.overlay_excluding (config : Config) (layer : Config.Overlay)
    (lines : List (List Char)) :
    config.overlay (layer.excluding lines) = (config.overlay layer).excluding lines := by
  simp [overlay, Overlay.excluding, excluding]

namespace Job

variable {t : FileTree} {cwd : Location} {config : Config} {lines : List (List Char)}
  {planned kept : List Planned}

theorem Keyed.sublist {style : KeyStyle} (h : Keyed style planned) (hkept : kept.Sublist planned) :
    Keyed style kept where
  derived p hp := h.derived p (hkept.subset hp)
  distinct := h.distinct.sublist (hkept.map _)

/-- Lines that can be read and take nothing in again. -/
structure OnlyLeaveOut (lines : List (List Char)) : Prop where
  readable : ∀ line ∈ lines, ∃ rule, Rule.ofLine? line = .ok rule
  plain : ∀ line ∈ lines, line.head? ≠ some '!'

/-- With such lines behind it a list lets nothing through that it left out. -/
theorem OnlyLeaveOut.exists_narrows {root : Path} {before : List (List Char)} {list : ExcludeList}
    (h : OnlyLeaveOut lines) (hlist : ExcludeList.ofLines root before = .ok list) :
    ∃ longer, ExcludeList.ofLines root (before ++ lines) = .ok longer ∧ Walk.Narrows longer list := by
  obtain ⟨rules, hlonger, hrules⟩ := ExcludeList.ofLines_append hlist h.readable
  refine ⟨_, hlonger, fun path isDirectory => ?_⟩
  apply ExcludeList.verdict_append_eq_ignore
  intro rule hrule
  obtain ⟨line, hline, hread⟩ := hrules rule hrule
  by_contra hin
  exact h.plain line hline (Rule.head_eq_of_whitelist hread (by simpa using hin))

theorem exists_plan_sublist (hlines : OnlyLeaveOut lines)
    (hplan : (plan t cwd config).result = .ok planned) :
    ∃ kept, (plan t cwd (config.excluding lines)).result = .ok kept ∧ kept.Sublist planned := by
  obtain ⟨hwalk, hkeyed⟩ := plan_eq_ok_iff.1 hplan
  obtain ⟨_, list, _, _, hlist⟩ := Walk.exists_of_walk hwalk
  obtain ⟨longer, hlonger, hnarrow⟩ := hlines.exists_narrows hlist
  obtain ⟨sources, hkept, hsources⟩ := Walk.exists_walk_sublist hlonger hlist hnarrow hwalk
    fun way hway => areTexts_of_mem hplan hwalk hway
  obtain ⟨kept, hsublist, rfl⟩ := List.sublist_map_iff.1 hsources
  exact ⟨kept, plan_eq_ok_iff.2 ⟨hkept, hkeyed.sublist hsublist⟩, hsublist⟩

/-- More lines that only leave out, behind those of the settings or behind those of a layer over them,
leave a plan that succeeds with some of its files, each with its key, in the same order. -/
theorem plan_excluding (hlines : OnlyLeaveOut lines) :
    (∀ t cwd config planned, (plan t cwd config).result = .ok planned →
      ∃ kept, (plan t cwd (config.excluding lines)).result = .ok kept ∧ kept.Sublist planned) ∧
    ∀ t cwd (config : Config) layer planned, (plan t cwd (config.overlay layer)).result = .ok planned →
      ∃ kept, (plan t cwd (config.overlay (layer.excluding lines))).result = .ok kept ∧
        kept.Sublist planned := by
  refine ⟨fun t cwd config planned => exists_plan_sublist hlines, ?_⟩
  intro t cwd config layer planned hplan
  rw [Config.overlay_excluding]
  exact exists_plan_sublist hlines hplan

/-- Settings that leave every name of one letter out. -/
def coarseConfig : Config :=
  configD.excluding ["?".toList]

/-- A layer that takes two such names in again. -/
def finerLayer : Config.Overlay where
  exclude := ["!e".toList, "!f".toList]

/-- The layer leaves two files of three, and with one more line one of them. -/
theorem plan_excluding_nestedTree : OnlyLeaveOut ["/f".toList] ∧
    (plan nestedTree [] (coarseConfig.overlay finerLayer)).result = .ok nestedPlan.tail ∧
    (∃ kept, (plan nestedTree [] ((coarseConfig.overlay finerLayer).excluding ["/f".toList])).result =
      .ok kept ∧ kept.Sublist nestedPlan.tail) ∧
    (∃ kept, (plan nestedTree [] (coarseConfig.overlay (finerLayer.excluding ["/f".toList]))).result =
      .ok kept ∧ kept.Sublist nestedPlan.tail) ∧
    (plan nestedTree [] (coarseConfig.overlay (finerLayer.excluding ["/f".toList]))).result =
      .ok [⟨"std_e_f".toList, ⟨.ofString "d/e/f", .ofString "e/f"⟩⟩] := by
  have hlines : OnlyLeaveOut ["/f".toList] := by
    refine ⟨List.forall_mem_singleton.2 ?_, List.forall_mem_singleton.2 (by decide)⟩
    exact ⟨_, by cbv⟩
  have hplan : (plan nestedTree [] (coarseConfig.overlay finerLayer)).result =
      .ok nestedPlan.tail := by cbv
  obtain ⟨hconfig, hlayer⟩ := plan_excluding hlines
  exact ⟨hlines, hplan, hconfig _ _ _ _ hplan, hlayer _ _ _ _ _ hplan, by cbv⟩

end Job

end AssetBake
