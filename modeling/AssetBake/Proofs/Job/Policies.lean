import AssetBake.Proofs.Job.Collecting
import AssetBake.Proofs.Key.Derivation
import Mathlib

/-!
# Jobs under both name policies

A job that succeeds while bad names are refused has no name to replace: with replacing turned on it
gives every file the same key, and so the same table and the same header.
-/

namespace AssetBake

def Config.withPolicy (config : Config) (policy : NamePolicy) : Config :=
  { config with keys := config.keys.withPolicy policy }

namespace Job

variable {t : FileTree} {cwd : Location} {config : Config} {planned : List Planned}

theorem Keyed.withPolicy_sanitize {style : KeyStyle} (hpolicy : style.policy = .reject)
    (h : Keyed style planned) : Keyed (style.withPolicy .sanitize) planned where
  derived p hp := KeyStyle.derive_withPolicy_sanitize hpolicy (h.derived p hp)
  distinct := h.distinct

/-- The walk does not look at the policy, and the files keep their keys. -/
theorem plan_withPolicy_sanitize (hpolicy : config.keys.policy = .reject)
    (hplan : (plan t cwd config).result = .ok planned) :
    (plan t cwd (config.withPolicy .sanitize)).result = .ok planned := by
  obtain ⟨hwalk, hkeyed⟩ := plan_eq_ok_iff.1 hplan
  exact plan_eq_ok_iff.2 ⟨hwalk, hkeyed.withPolicy_sanitize hpolicy⟩

theorem render_withPolicy_sanitize (hpolicy : config.keys.policy = .reject)
    {table : Table} {artifact : Artifact}
    (hrender : (render t cwd config).result = .ok (table, artifact)) :
    (render t cwd (config.withPolicy .sanitize)).result = .ok (table, artifact) := by
  obtain ⟨planned, hplan⟩ := exists_plan_of_render hrender
  obtain ⟨hassets, header, hheader, hartifact⟩ := (render_eq_ok_iff hplan).1 hrender
  exact (render_eq_ok_iff (plan_withPolicy_sanitize hpolicy hplan)).2
    ⟨hassets, header, hheader, hartifact⟩

/-- Replacing bad characters changes no job that succeeds while they are refused: the table and the
header are the same. A path with a key keeps it, and while bad characters are replaced a path has no
key only for want of a normal form, which it then wants under either policy. -/
theorem sanitizing_keeps (hpolicy : config.keys.policy = .reject) :
    (∀ t cwd table artifact, (render t cwd config).result = .ok (table, artifact) →
      (render t cwd (config.withPolicy .sanitize)).result = .ok (table, artifact)) ∧
    (∀ relative key, config.keys.derive relative = .ok key →
      (config.keys.withPolicy .sanitize).derive relative = .ok key) ∧
    ∀ relative fault, ((config.keys.withPolicy .sanitize).derive relative = .error fault ↔
        relative.normalize = .error fault) ∧
      ((config.keys.withPolicy .sanitize).derive relative = .error fault →
        config.keys.derive relative = .error fault) := by
  refine ⟨fun t cwd table artifact => render_withPolicy_sanitize hpolicy,
    fun relative key => KeyStyle.derive_withPolicy_sanitize hpolicy, fun relative fault => ?_⟩
  have hfault : (config.keys.withPolicy .sanitize).derive relative = .error fault ↔
      relative.normalize = .error fault := KeyStyle.derive_eq_error_iff_of_sanitize rfl
  exact ⟨hfault, fun h => KeyStyle.derive_of_normalize_eq_error (hfault.1 h)⟩

/-- Three files keep their keys and texts, one by itself keeps its key, and a path that leads upwards
has none under either policy. -/
theorem sanitizing_keeps_nestedTree :
    configD.keys.policy = .reject ∧
    (∃ table artifact, table.size = 3 ∧ (render nestedTree [] configD).result = .ok (table, artifact) ∧
      (render nestedTree [] (configD.withPolicy .sanitize)).result = .ok (table, artifact)) ∧
    (configD.keys.withPolicy .sanitize).derive (.ofString "e/f") = .ok "std_e_f".toList ∧
    configD.keys.derive (.ofString "../f") = .error .notRelative := by
  have hpolicy : configD.keys.policy = .reject := rfl
  have hkey : configD.keys.derive (.ofString "e/f") = .ok "std_e_f".toList := by cbv
  have hfault : (configD.keys.withPolicy .sanitize).derive (.ofString "../f") =
      .error .notRelative := by cbv
  obtain ⟨hrenders, hkeys, hfaults⟩ := sanitizing_keeps hpolicy
  obtain ⟨⟨table, artifact⟩, hrender⟩ := (exists_render_iff plan_nestedTree).2 embeddable_nestedPlan
  have hassets := ((render_eq_ok_iff plan_nestedTree).1 hrender).1
  exact ⟨hpolicy, ⟨table, artifact, hassets.length_eq.symm, hrender, hrenders _ _ _ _ hrender⟩,
    hkeys _ _ hkey, (hfaults _ _).2 hfault⟩

end Job

end AssetBake
