import AssetBake.Proofs.FileTree.Replacing
import AssetBake.Proofs.Job.Collecting

/-!
# Failed runs

A run that fails keeps every file and every link, the previous header among them, and makes no new
one. What it can leave behind are directories that were missing on the way to the output, and those only
if the failure is one of writing.
-/

namespace AssetBake.Job

open FileTree

/-- What a failed run makes of a tree: the files and links are those from before, only directories on
the way to the output are new, and those only after a failure to write. -/
structure Undone (t t' : FileTree) (cwd : Location) (output : Path) (failure : Failure) : Prop where
  kept : ∀ place e, e.isDirectory = false → (t'.find? place = some e ↔ t.find? place = some e)
  grown : Grows t t' (OnTheWay t' cwd (parentOf output))
  same : (∀ path reason, failure ≠ .outputWriteFailure path reason) → t' = t

theorem Undone.refl (t : FileTree) (cwd : Location) (output : Path) (failure : Failure) :
    Undone t t cwd output failure where
  kept _ _ _ := Iff.rfl
  grown := .refl _ _
  same _ := rfl

theorem path_of_render {t : FileTree} {cwd : Location} {config : Config} {table : Table}
    {artifact : Artifact} (h : (render t cwd config).result = .ok (table, artifact)) :
    artifact.path = config.output := by
  rw [render, Traced.result_bind, Except.bind_eq_ok_iff] at h
  obtain ⟨_, _, h⟩ := h
  rw [Traced.result_bind, Except.bind_eq_ok_iff] at h
  obtain ⟨_, _, h⟩ := h
  cases h
  rfl

theorem result_generate {t : FileTree} {cwd : Location} {config : Config} {table : Table}
    {artifact : Artifact} (h : (render t cwd config).result = .ok (table, artifact)) :
    (generate t cwd config).2.result = (write t cwd artifact).2.result.map fun outcome =>
      ⟨table.size, table.contentBytes, artifact.path, outcome, artifact.hash⟩ := by
  simp only [generate, h]

theorem result_write_of_error {t : FileTree} {cwd : Location} {artifact : Artifact}
    {fault : ReplaceFault}
    (h : (t.writeIfChanged cwd artifact.path (Text.Utf8.encode artifact.content)).2 =
      .error fault) :
    (write t cwd artifact).2.result = .error (.outputWriteFailure artifact.path fault.message) := by
  rw [write]
  cases hrun : t.writeIfChanged cwd artifact.path (Text.Utf8.encode artifact.content) with
  | mk t' outcome =>
    rw [hrun] at h
    cases h
    rfl

/-- A header that cannot be put in its place leaves everything as it was but for new directories. -/
theorem undone_of_write {t : FileTree} {cwd : Location} {artifact : Artifact} {failure : Failure}
    (h : (write t cwd artifact).2.result = .error failure) :
    Undone t (write t cwd artifact).1 cwd artifact.path failure := by
  rw [write] at h ⊢
  cases hrun : t.writeIfChanged cwd artifact.path (Text.Utf8.encode artifact.content) with
  | mk t' outcome =>
    rw [hrun] at h
    cases outcome with
    | error fault =>
      cases h
      have hgrows := grows_of_writeIfChanged_error hrun
      exact ⟨fun place e he => hgrows.find?_eq_some_iff he, hgrows,
        fun hother => absurd rfl (hother _ _)⟩
    | ok outcome => cases outcome <;> cases h

theorem undone_of_generate {t : FileTree} {cwd : Location} {config : Config} {failure : Failure}
    (h : (generate t cwd config).2.result = .error failure) :
    Undone t (generate t cwd config).1 cwd config.output failure := by
  simp only [generate] at h ⊢
  cases hrender : (render t cwd config).result with
  | error refused => exact .refl _ _ _ _
  | ok made =>
    obtain ⟨table, artifact⟩ := made
    simp only [hrender] at h
    rw [← path_of_render hrender]
    exact undone_of_write (Except.map_eq_error_iff.1 h)

theorem undone_of_bake {t : FileTree} {cwd : Location} {config : Config} {failure : Failure}
    (h : (bake t cwd config).2.result = .error failure) :
    Undone t (bake t cwd config).1 cwd config.output failure := by
  rw [bake] at h ⊢
  cases hvalid : config.validate configSource with
  | error refused => exact .refl _ _ _ _
  | ok =>
    rw [hvalid] at h
    exact undone_of_generate h

/-- However a run fails, every file and link stays as it was and none is new. Directories that were
missing on the way to the output may be, but not unless the header could not be written. -/
theorem undone_of_failure {t : FileTree} {cwd : Location} {config : Config} {failure : Failure} :
    ((generate t cwd config).2.result = .error failure →
      Undone t (generate t cwd config).1 cwd config.output failure) ∧
    ((bake t cwd config).2.result = .error failure →
      Undone t (bake t cwd config).1 cwd config.output failure) :=
  ⟨undone_of_generate, undone_of_bake⟩

theorem result_generate_of_error {t : FileTree} {cwd : Location} {config : Config}
    {fault : ReplaceFault} (hrender : ∃ made, (render t cwd config).result = .ok made)
    (hwrite : ∀ bytes, (t.writeIfChanged cwd config.output bytes).2 = .error fault) :
    (generate t cwd config).2.result =
      .error (.outputWriteFailure config.output fault.message) := by
  obtain ⟨⟨table, artifact⟩, hmade⟩ := hrender
  have hpath : artifact.path = config.output := path_of_render hmade
  rw [result_generate hmade, result_write_of_error (hpath ▸ hwrite _), hpath]
  rfl

/-- A job with the output at a path that is no file's, and one below a directory that is not there. -/
def slashConfig : Config :=
  { configD with output := .ofString "new/h/" }

def freshConfig : Config :=
  { configD with output := .ofString "new/h" }

/-- The small tree on a device that is full. -/
def fullTree : FileTree :=
  { smallTree with host := { refusal := fun request =>
      match request with
      | .fill _ => some "No space left on device (os error 28)"
      | _ => none } }

/-- The output cannot be put at a path that ends in a slash, nor filled on a full device, and the
directory made for it stays. -/
theorem undone_smallTree :
    (generate smallTree [] slashConfig).2.result = .error (.outputWriteFailure slashConfig.output
      "cannot replace destination: Not a directory (os error 20)") ∧
    Undone smallTree (generate smallTree [] slashConfig).1 [] slashConfig.output
      (.outputWriteFailure slashConfig.output
        "cannot replace destination: Not a directory (os error 20)") ∧
    (generate fullTree [] freshConfig).2.result = .error (.outputWriteFailure freshConfig.output
      "No space left on device (os error 28)") ∧
    Undone fullTree (generate fullTree [] freshConfig).1 [] freshConfig.output
      (.outputWriteFailure freshConfig.output "No space left on device (os error 28)") := by
  have hrender : ∀ t config,
      (plan t [] config).result = .ok [⟨"std_f".toList, ⟨.ofString "d/f", .ofString "f"⟩⟩] →
      Embeddable t [] config.literals ⟨"std_f".toList, ⟨.ofString "d/f", .ofString "f"⟩⟩ →
      ∃ made, (render t [] config).result = .ok made := fun _ _ hplan hfile =>
    (exists_render_iff hplan).2 (List.forall_mem_singleton.2 hfile)
  have hslash := result_generate_of_error
    (hrender smallTree slashConfig (by cbv) ⟨"hi", by cbv, by decide⟩)
    (fun bytes => show (smallTree.writeIfChanged [] (.ofString "new/h/") bytes).2 =
      .error (.cannotReplace .notDirectory) by cbv)
  have hfull := result_generate_of_error
    (hrender fullTree freshConfig (by cbv) ⟨"hi", by cbv, by decide⟩)
    (fun bytes => show (fullTree.writeIfChanged [] (.ofString "new/h") bytes).2 =
      .error (.cannotFill (.refused "No space left on device (os error 28)")) by cbv)
  exact ⟨hslash, undone_of_failure.1 hslash, hfull, undone_of_failure.1 hfull⟩

end AssetBake.Job
