import AssetBake.Proofs.FileTree.ReadingBack
import AssetBake.Proofs.Job.Atomicity
import Mathlib

/-!
# Checking and generating

The two runs render the same header and compare it with the same bytes. So a check that finds the header
up to date says that a generation has nothing to do, and else that it writes or fails to write. What a
generation reports is what can be read at the output afterwards, unless the output runs through the link
that is replaced by the header.
-/

namespace AssetBake.Job

open FileTree

variable {t : FileTree} {cwd : Location} {config : Config} {table : Table} {artifact : Artifact}

/-! ### The header on disk -/

/-- The header can be read at its path already. -/
def OnDisk (t : FileTree) (cwd : Location) (artifact : Artifact) : Prop :=
  t.contentAt cwd artifact.path = .ok (Text.Utf8.encode artifact.content)

theorem holds_iff : t.holds cwd artifact.path (Text.Utf8.encode artifact.content) = true ↔
    OnDisk t cwd artifact :=
  holds_eq_true_iff

theorem freshness_eq_upToDate_iff :
    freshness t cwd artifact = .ok .upToDate ↔ OnDisk t cwd artifact := by
  rw [freshness, OnDisk]
  cases t.contentAt cwd artifact.path with
  | ok existing => by_cases h : existing = Text.Utf8.encode artifact.content <;> simp [h]
  | error fault => cases fault <;> simp

theorem write_of_onDisk (h : OnDisk t cwd artifact) :
    (write t cwd artifact).1 = t ∧ (write t cwd artifact).2.result = .ok .unchanged := by
  rw [write, writeIfChanged, if_pos (holds_iff.2 h)]
  exact ⟨rfl, rfl⟩

/-- A header that is not on disk yet is written, or it is reported that it cannot be. -/
theorem write_of_not_onDisk (h : ¬OnDisk t cwd artifact) :
    ((write t cwd artifact).2.result = .ok .written ∧
      t.replaceFile cwd artifact.path (Text.Utf8.encode artifact.content) =
        ((write t cwd artifact).1, .ok ())) ∨
    ∃ reason, (write t cwd artifact).2.result = .error (.outputWriteFailure artifact.path reason) := by
  rw [write, writeIfChanged, if_neg (holds_iff.not.2 h)]
  cases t.replaceFile cwd artifact.path (Text.Utf8.encode artifact.content) with
  | mk t' result =>
    cases result with
    | ok => exact .inl ⟨rfl, rfl⟩
    | error fault => exact .inr ⟨fault.message, rfl⟩

/-! ### The two runs -/

theorem result_check (h : (render t cwd config).result = .ok (table, artifact)) :
    (check t cwd config).result =
      (freshness t cwd artifact).map fun found => ⟨table.size, artifact, found⟩ := by
  simp only [check, Traced.result_bind, h, Except.ok_bind, Traced.result_ofExcept]
  cases freshness t cwd artifact <;> rfl

theorem tree_generate (h : (render t cwd config).result = .ok (table, artifact)) :
    (generate t cwd config).1 = (write t cwd artifact).1 := by
  simp only [generate, h]

theorem result_check_of_error {failure : Failure} (h : (render t cwd config).result = .error failure) :
    (check t cwd config).result = .error failure := by
  simp only [check, Traced.result_bind, h, Except.error_bind]

theorem generate_of_error {failure : Failure} (h : (render t cwd config).result = .error failure) :
    (generate t cwd config).1 = t ∧ (generate t cwd config).2.result = .error failure := by
  simp only [generate, h, and_self]

theorem exists_render_of_generate {made : BakeReport}
    (h : (generate t cwd config).2.result = .ok made) :
    ∃ table artifact, (render t cwd config).result = .ok (table, artifact) ∧
      (write t cwd artifact).2.result = .ok made.outcome ∧
      made = ⟨table.size, table.contentBytes, artifact.path, made.outcome, artifact.hash⟩ := by
  rcases Except.ok_or_error (render t cwd config).result with
    ⟨⟨table, artifact⟩, hrender⟩ | ⟨_, hfailure⟩
  · rw [result_generate hrender] at h
    obtain ⟨outcome, houtcome, rfl⟩ := Except.map_eq_ok_iff.1 h
    exact ⟨table, artifact, hrender, houtcome, rfl⟩
  · rw [(generate_of_error hfailure).2] at h
    cases h

/-- A job that renders, and whose header can be put in its place whatever it is, changes the tree just
so. -/
theorem exists_generate_of_written (hrender : ∃ made, (render t cwd config).result = .ok made)
    (hwrite : ∀ content, (t.writeIfChanged cwd config.output content).2 = .ok .written) :
    ∃ made content, (generate t cwd config).2.result = .ok made ∧
      (generate t cwd config).1 = (t.writeIfChanged cwd config.output content).1 := by
  obtain ⟨⟨table, artifact⟩, hrender⟩ := hrender
  have hwritten := hwrite (Text.Utf8.encode artifact.content)
  rw [result_generate hrender, tree_generate hrender, write, path_of_render hrender]
  cases hrun : t.writeIfChanged cwd config.output (Text.Utf8.encode artifact.content) with
  | mk t' outcome =>
    rw [hrun] at hwritten
    cases hwritten
    exact ⟨_, Text.Utf8.encode artifact.content, rfl, by rw [hrun]⟩

/-- A written header can be read at the output, unless the output runs through itself. -/
theorem onDisk_of_written (hrender : (render t cwd config).result = .ok (table, artifact))
    (hwrite : (write t cwd artifact).2.result = .ok .written)
    (hruns : ¬(t.withParents cwd config.output).RunsThroughItself cwd config.output) :
    OnDisk (write t cwd artifact).1 cwd artifact := by
  have hnot : ¬OnDisk t cwd artifact := by
    intro hdisk
    rw [(write_of_onDisk hdisk).2] at hwrite
    cases hwrite
  rcases write_of_not_onDisk hnot with ⟨_, hreplace⟩ | ⟨reason, hfailure⟩
  · rw [← path_of_render hrender] at hruns
    exact contentAt_of_replaceFile hreplace hruns
  · cases hwrite.symm.trans hfailure

/-- How a check and a generation from the same state go together. -/
structure Agreement (t : FileTree) (cwd : Location) (config : Config) : Prop where
  failed : ∀ failure, (render t cwd config).result = .error failure →
    (check t cwd config).result = .error failure ∧ (generate t cwd config).2.result = .error failure
  upToDate_iff : (∃ seen, (check t cwd config).result = .ok seen ∧ seen.freshness = .upToDate) ↔
    ∃ made, (generate t cwd config).2.result = .ok made ∧ made.outcome = .unchanged
  unchanged : ∀ made, (generate t cwd config).2.result = .ok made → made.outcome = .unchanged →
    (generate t cwd config).1 = t
  outdated : ∀ seen, (check t cwd config).result = .ok seen → seen.freshness ≠ .upToDate →
    (∃ made, (generate t cwd config).2.result = .ok made ∧ made.outcome = .written) ∨
      ∃ reason, (generate t cwd config).2.result = .error (.outputWriteFailure config.output reason)
  same : ∀ seen made, (check t cwd config).result = .ok seen →
    (generate t cwd config).2.result = .ok made →
      seen.assets = made.assets ∧ seen.artifact.hash = made.hash
  readBack : ∀ made, (generate t cwd config).2.result = .ok made →
    made.outcome = .unchanged ∨
      ¬(t.withParents cwd config.output).RunsThroughItself cwd config.output →
    ∃ bytes, (generate t cwd config).1.contentAt cwd config.output = .ok bytes ∧
      made.hash = contentHash bytes

theorem agreement_of_error {failure : Failure} (h : (render t cwd config).result = .error failure) :
    Agreement t cwd config where
  failed other hother := by
    cases h.symm.trans hother
    exact ⟨result_check_of_error h, (generate_of_error h).2⟩
  upToDate_iff := by
    rw [result_check_of_error h, (generate_of_error h).2]
    simp
  unchanged _ _ _ := (generate_of_error h).1
  outdated seen hseen := by cases (result_check_of_error h).symm.trans hseen
  same seen _ hseen := by cases (result_check_of_error h).symm.trans hseen
  readBack made hmade := by cases (generate_of_error h).2.symm.trans hmade

theorem check_upToDate_iff (hrender : (render t cwd config).result = .ok (table, artifact)) :
    (∃ seen, (check t cwd config).result = .ok seen ∧ seen.freshness = .upToDate) ↔
      OnDisk t cwd artifact := by
  rw [result_check hrender, ← freshness_eq_upToDate_iff]
  cases freshness t cwd artifact <;> simp [Except.map]

theorem generate_unchanged_iff (hrender : (render t cwd config).result = .ok (table, artifact)) :
    (∃ made, (generate t cwd config).2.result = .ok made ∧ made.outcome = .unchanged) ↔
      OnDisk t cwd artifact := by
  rw [result_generate hrender]
  by_cases hdisk : OnDisk t cwd artifact
  · simp [(write_of_onDisk hdisk).2, Except.map, hdisk]
  · rcases write_of_not_onDisk hdisk with ⟨hwritten, _⟩ | ⟨reason, hfailure⟩
    · simp [hwritten, Except.map, hdisk]
    · simp [hfailure, Except.map, hdisk]

theorem agreement_of_render (hrender : (render t cwd config).result = .ok (table, artifact)) :
    Agreement t cwd config where
  failed failure h := by cases hrender.symm.trans h
  upToDate_iff := (check_upToDate_iff hrender).trans (generate_unchanged_iff hrender).symm
  unchanged made hmade houtcome := by
    have hdisk := (generate_unchanged_iff hrender).1 ⟨made, hmade, houtcome⟩
    rw [tree_generate hrender, (write_of_onDisk hdisk).1]
  outdated seen hseen hfresh := by
    have hdisk : ¬OnDisk t cwd artifact := by
      intro hdisk
      rw [result_check hrender, freshness_eq_upToDate_iff.2 hdisk] at hseen
      cases hseen
      exact hfresh rfl
    rw [result_generate hrender]
    rcases write_of_not_onDisk hdisk with ⟨hwritten, _⟩ | ⟨reason, hfailure⟩
    · rw [hwritten]
      exact .inl ⟨_, rfl, rfl⟩
    · rw [hfailure, path_of_render hrender]
      exact .inr ⟨reason, rfl⟩
  same seen made hseen hmade := by
    rw [result_check hrender] at hseen
    rw [result_generate hrender] at hmade
    obtain ⟨_, _, rfl⟩ := Except.map_eq_ok_iff.1 hseen
    obtain ⟨_, _, rfl⟩ := Except.map_eq_ok_iff.1 hmade
    exact ⟨rfl, rfl⟩
  readBack made hmade hkept := by
    rw [result_generate hrender] at hmade
    obtain ⟨outcome, hwrite, rfl⟩ := Except.map_eq_ok_iff.1 hmade
    rw [tree_generate hrender, ← path_of_render hrender]
    refine ⟨Text.Utf8.encode artifact.content, ?_, rfl⟩
    by_cases hdisk : OnDisk t cwd artifact
    · rw [(write_of_onDisk hdisk).1]
      exact hdisk
    · rcases write_of_not_onDisk hdisk with ⟨hwritten, _⟩ | ⟨reason, hfailure⟩
      · cases hwrite.symm.trans hwritten
        exact onDisk_of_written hrender hwrite (hkept.resolve_left (by simp))
      · cases hwrite.symm.trans hfailure

/-- A check and a generation agree in every state. -/
theorem check_agrees (t : FileTree) (cwd : Location) (config : Config) : Agreement t cwd config := by
  rcases Except.ok_or_error (render t cwd config).result with
    ⟨⟨table, artifact⟩, hrender⟩ | ⟨_, hfailure⟩
  · exact agreement_of_render hrender
  · exact agreement_of_error hfailure

/-! ### An output that runs through itself -/

/-- The directory `d` with the file `f`, and a link `l` to a place `new` that is free. -/
def loopingTree : FileTree where
  entries := [([nameD], .directory 0o755), ([nameF, nameD], .file 0o644 [0x68, 0x69]),
    ([⟨[0x6c], by decide⟩], .link (.ofString "new"))]
  distinct := by decide
  rooted := by simp

/-- The output runs through the link `l` once the directory `new` is made. -/
def loopingConfig : Config :=
  { Config.standard with input := .ofString "d", output := .ofString "new/../l/../l" }

theorem render_loopingTree : ∃ made, (render loopingTree [] loopingConfig).result = .ok made := by
  have hplan : (plan loopingTree [] loopingConfig).result =
      .ok [⟨"std_f".toList, ⟨.ofString "d/f", .ofString "f"⟩⟩] := by cbv
  exact (exists_render_iff hplan).2 (List.forall_mem_singleton.2 ⟨"hi", by cbv, by decide⟩)

theorem writeIfChanged_loopingTree (content : List UInt8) :
    (loopingTree.writeIfChanged [] loopingConfig.output content).2 = .ok .written ∧
    (loopingTree.writeIfChanged [] loopingConfig.output content).1.contentAt [] loopingConfig.output =
      .error .notDirectory :=
  ⟨by cbv, by cbv⟩

/-- Both runs succeed. The link is replaced by the header, and the path that ran through the link leads
nowhere then. -/
theorem contentAt_loopingTree : ∃ seen made,
    (check loopingTree [] loopingConfig).result = .ok seen ∧
    (generate loopingTree [] loopingConfig).2.result = .ok made ∧
    (generate loopingTree [] loopingConfig).1.contentAt [] loopingConfig.output =
      .error .notDirectory := by
  obtain ⟨⟨table, artifact⟩, hrender⟩ := render_loopingTree
  have hmissing : loopingTree.contentAt [] loopingConfig.output = .error .notFound := by cbv
  have hcheck : (check loopingTree [] loopingConfig).result = .ok ⟨table.size, artifact, .missing⟩ := by
    rw [result_check hrender, freshness, path_of_render hrender, hmissing]
    rfl
  obtain ⟨made, content, hmade, htree⟩ :=
    exists_generate_of_written ⟨_, hrender⟩ fun content => (writeIfChanged_loopingTree content).1
  exact ⟨_, made, hcheck, hmade, htree ▸ (writeIfChanged_loopingTree content).2⟩

end AssetBake.Job
