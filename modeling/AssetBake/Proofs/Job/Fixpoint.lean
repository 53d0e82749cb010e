import AssetBake.Proofs.Job.Agreement
import AssetBake.Proofs.Walk.Exactness
import AssetBake.Proofs.Walk.Growing
import Mathlib

/-!
# Repeated generations

After a generation the header is on disk, and the files that it was made of are as they were: unless one
of them is the output itself, the new directories and the new file change nothing that the job reads. So
every further run leaves everything as it is.
-/

namespace AssetBake.Job

open FileTree

variable {t t' : FileTree} {cwd : Location} {config : Config} {table : Table} {artifact : Artifact}
  {planned : List Planned} {target : Location}

/-! ### What the job reads -/

/-- A file with a key has a relative path made of texts. -/
theorem areTexts_of_mem {sources : List Source} (hplan : (plan t cwd config).result = .ok planned)
    (hwalk : (t.walk cwd config.input config.exclude config.followLinks).result = .ok sources)
    {full : Path} {way : List Name} (h : ⟨full, .ofNames way⟩ ∈ sources) : AreTexts way := by
  obtain ⟨hplanned, hkeyed⟩ := plan_eq_ok_iff.1 hplan
  cases hwalk.symm.trans hplanned
  obtain ⟨p, hp, hsource⟩ := List.mem_map.1 h
  have hkey := hkeyed.derived p hp
  rw [hsource] at hkey
  intro n hn
  apply Option.ne_none_iff_exists'.1
  intro hnone
  refine derive_ne_ok_of_not_text ?_ hnone p.key hkey
  rw [Path.components_ofNames]
  exact List.mem_map.2 ⟨n, hn, rfl⟩

/-- A job that reads the same files with the same content renders the same header. -/
theorem render_of_sources (hplan : (plan t cwd config).result = .ok planned)
    (hwalk : (t'.walk cwd config.input config.exclude config.followLinks).result =
      .ok (planned.map (·.source)))
    (hcontent : ∀ s ∈ planned.map (·.source), ∀ content,
      t.contentAt cwd s.full = .ok content → t'.contentAt cwd s.full = .ok content)
    (hrender : (render t cwd config).result = .ok (table, artifact)) :
    (render t' cwd config).result = .ok (table, artifact) := by
  have hplan' : (plan t' cwd config).result = .ok planned :=
    plan_eq_ok_iff.2 ⟨hwalk, (plan_eq_ok_iff.1 hplan).2⟩
  obtain ⟨hassets, hheader⟩ := (render_eq_ok_iff hplan).1 hrender
  refine (render_eq_ok_iff hplan').2 ⟨?_, hheader⟩
  have hboth : List.Forall₂ (fun p asset => p ∈ planned ∧ IsAssetOf t cwd p asset) planned
      table.assets := (List.forall₂_and_left _ _).2 ⟨fun _ => id, hassets⟩
  refine hboth.imp fun p asset ⟨hp, hof⟩ => ⟨hof.key, hof.source, ?_⟩
  exact hcontent _ (List.mem_map.2 ⟨p, hp, rfl⟩) _ hof.content

theorem render_of_walk_error {failure : Failure}
    (hwalk : (t.walk cwd config.input config.exclude config.followLinks).result = .error failure) :
    (render t cwd config).result = .error failure := by
  simp only [render, collect, plan, Traced.result_bind, hwalk, Except.error_bind]

/-! ### The second run -/

/-- The output is one of the files that the walk of the input finds, itself or by a link. -/
def FindsOutput (t : FileTree) (cwd : Location) (config : Config) : Prop :=
  ∃ sources way file,
    (t.walk cwd config.input config.exclude config.followLinks).result = .ok sources ∧
    ⟨config.input.join (.ofNames way), .ofNames way⟩ ∈ sources ∧
    Walk.Reaches t cwd config.input way file ∧ t.resolve cwd config.output = .ok file

/-- After a report, a check finds the header up to date, and every further run reports the same but for
the outcome and leaves everything as it is. -/
structure Settled (t : FileTree) (cwd : Location) (config : Config) (report : BakeReport) : Prop where
  checked : ∃ seen, (check t cwd config).result = .ok seen ∧ seen.freshness = .upToDate ∧
    seen.assets = report.assets ∧ seen.artifact.hash = report.hash
  again : (generate t cwd config).2.result = .ok { report with outcome := .unchanged }
  same : (generate t cwd config).1 = t
  forever : ∀ runs, (fun t => (generate t cwd config).1)^[runs] t = t

theorem settled_of_onDisk (hrender : (render t cwd config).result = .ok (table, artifact))
    (hdisk : OnDisk t cwd artifact) (outcome : WriteOutcome) :
    Settled t cwd config
      ⟨table.size, table.contentBytes, artifact.path, outcome, artifact.hash⟩ := by
  have hsame : (generate t cwd config).1 = t := by
    rw [tree_generate hrender, (write_of_onDisk hdisk).1]
  refine ⟨?_, ?_, hsame, fun runs => Function.iterate_fixed hsame runs⟩
  · rw [result_check hrender, freshness_eq_upToDate_iff.2 hdisk]
    exact ⟨_, rfl, rfl, rfl, rfl⟩
  · rw [result_generate hrender, (write_of_onDisk hdisk).2]
    rfl

/-- A job whose output is not one of its files renders the same header after it was written. -/
theorem render_of_renews (hrenews : Renews t t' target)
    (houtput : t'.resolve cwd config.output = .ok target) (hfinds : ¬FindsOutput t' cwd config)
    (hopens : ∀ path fault, checkPath path = .error fault →
      (t'.walk cwd config.input config.exclude config.followLinks).result ≠
        .error (Walk.openFailure path fault))
    (hrender : (render t cwd config).result = .ok (table, artifact)) :
    (render t' cwd config).result = .ok (table, artifact) := by
  obtain ⟨planned, hplan⟩ := exists_plan_of_render hrender
  have hwalk := (plan_eq_ok_iff.1 hplan).1
  have hmisses : ∀ sources,
      (t'.walk cwd config.input config.exclude config.followLinks).result = .ok sources →
      Walk.Misses t' cwd config.input sources target := fun sources hsources way hway hreach =>
    hfinds ⟨sources, way, target, hsources, hway, hreach, houtput⟩
  have hwalk' := Walk.walk_of_renews hrenews hwalk (fun way => areTexts_of_mem hplan hwalk) hopens
    hmisses
  exact render_of_sources hplan hwalk' (fun s hs content =>
    Walk.contentAt_of_renews hrenews hwalk' (hmisses _ hwalk') hs) hrender

/-- If the output is no link once the missing directories are made, a generation that succeeds leaves
nothing to do for any further one, unless the output is one of the files that the walk finds or a new
directory has a path that the system does not take. -/
theorem generate_settles {report : BakeReport}
    (hmade : (generate t cwd config).2.result = .ok report)
    (hlink : ¬(t.withParents cwd config.output).EndsAtLink cwd config.output)
    (hfinds : ¬FindsOutput (generate t cwd config).1 cwd config)
    (hopens : ∀ path fault, checkPath path = .error fault →
      ((generate t cwd config).1.walk cwd config.input config.exclude config.followLinks).result ≠
        .error (Walk.openFailure path fault)) :
    Settled (generate t cwd config).1 cwd config report := by
  obtain ⟨table, artifact, hrender, hwrite, hreport⟩ := exists_render_of_generate hmade
  rw [hreport]
  by_cases hdisk : OnDisk t cwd artifact
  · rw [tree_generate hrender, (write_of_onDisk hdisk).1]
    exact settled_of_onDisk hrender hdisk _
  · rcases write_of_not_onDisk hdisk with ⟨hwritten, hreplace⟩ | ⟨reason, hfailure⟩
    · rw [← tree_generate hrender, path_of_render hrender] at hreplace
      obtain ⟨target, hrenews, houtput⟩ := renews_of_replaceFile hreplace hlink
      refine settled_of_onDisk (render_of_renews hrenews houtput hfinds hopens hrender) ?_ _
      rw [tree_generate hrender]
      exact onDisk_of_written hrender hwritten fun hruns => hlink hruns.endsAtLink
    · cases hwrite.symm.trans hfailure

/-! ### A header in a new directory of the input -/

def nameH : Name := ⟨[0x68], by decide⟩

def nameNew : Name := ⟨[0x6e, 0x65, 0x77], by decide⟩

/-- The output lies in a new directory of the input and is left out of the walk, and so is a file. -/
def nestedConfig : Config :=
  { configD with output := .ofString "d/new/h", exclude := ["h".toList, "/d".toList] }

/-- The output is none of the files of a walk that all lead elsewhere. -/
theorem not_findsOutput_of_resolve {t : FileTree} {cwd root output : Location} {config : Config}
    {sources : List Source}
    (hwalk : (t.walk cwd config.input config.exclude config.followLinks).result = .ok sources)
    (hroot : t.resolve cwd config.input = .ok root)
    (houtput : t.resolve cwd config.output = .ok output)
    (helse : ∀ source ∈ sources, source.relative ≠ .ofNames [] ∧
      ∃ found, t.resolve cwd source.full = .ok found ∧ found ≠ output) :
    ¬FindsOutput t cwd config := by
  rintro ⟨others, way, file, hothers, hway, hreach, hto⟩
  cases hwalk.symm.trans hothers
  obtain ⟨hrelative, found, hfound, hne⟩ := helse _ hway
  have hnames : way ≠ [] := by
    rintro rfl
    exact hrelative rfl
  cases hreach.eq_of_resolve hroot hnames hfound
  cases houtput.symm.trans hto
  exact hne rfl

theorem plan_nestedConfig : (plan nestedTree [] nestedConfig).result = .ok nestedPlan.tail := by
  cbv

theorem walk_written (content : List UInt8) :
    ((nestedTree.writeIfChanged [] nestedConfig.output content).1.walk [] nestedConfig.input
      nestedConfig.exclude nestedConfig.followLinks).result = .ok (nestedPlan.tail.map (·.source)) := by
  cbv

theorem not_findsOutput_written (content : List UInt8) :
    ¬FindsOutput (nestedTree.writeIfChanged [] nestedConfig.output content).1 [] nestedConfig := by
  have hroot : (nestedTree.writeIfChanged [] nestedConfig.output content).1.resolve []
      nestedConfig.input = .ok [nameD] := by cbv
  have houtput : (nestedTree.writeIfChanged [] nestedConfig.output content).1.resolve []
      nestedConfig.output = .ok [nameH, nameNew, nameD] := by cbv
  apply not_findsOutput_of_resolve (walk_written content) hroot houtput
  simp only [nestedPlan, List.tail_cons, List.map_cons, List.map_nil, List.forall_mem_cons]
  exact ⟨⟨by decide, [nameF, nameE, nameD], by cbv, by decide⟩,
    ⟨by decide, [nameF, nameD], by cbv, by decide⟩, by simp⟩

theorem settled_nestedTree : ∃ report,
    (generate nestedTree [] nestedConfig).2.result = .ok report ∧
    ¬(nestedTree.withParents [] nestedConfig.output).EndsAtLink [] nestedConfig.output ∧
    ¬FindsOutput (generate nestedTree [] nestedConfig).1 [] nestedConfig ∧
    Settled (generate nestedTree [] nestedConfig).1 [] nestedConfig report := by
  have hrender := (exists_render_iff plan_nestedConfig).2 fun p hp =>
    embeddable_nestedPlan p (List.mem_of_mem_tail hp)
  have hwrite : ∀ content,
      (nestedTree.writeIfChanged [] nestedConfig.output content).2 = .ok .written :=
    fun content => by cbv
  obtain ⟨report, content, hmade, htree⟩ := exists_generate_of_written hrender hwrite
  have hlink : ¬(nestedTree.withParents [] nestedConfig.output).EndsAtLink []
      nestedConfig.output := by
    have hfree : (nestedTree.withParents [] nestedConfig.output).locate [] false
        nestedConfig.output = .ok (.absent nameH [nameNew, nameD]) := by cbv
    exact not_endsAtLink hfree (by simp)
  have hfinds : ¬FindsOutput (generate nestedTree [] nestedConfig).1 [] nestedConfig :=
    htree ▸ not_findsOutput_written content
  have hwalk := htree ▸ walk_written content
  exact ⟨report, hmade, hlink, hfinds, generate_settles hmade hlink hfinds (by simp [hwalk])⟩

/-! ### Two generations that settle nothing -/

/-- The header takes the place of the link that the output runs through. -/
theorem check_loopingTree : ∃ report,
    (generate loopingTree [] loopingConfig).2.result = .ok report ∧
    ¬loopingTree.EndsAtLink [] loopingConfig.output ∧
    ¬FindsOutput (generate loopingTree [] loopingConfig).1 [] loopingConfig ∧
    (check (generate loopingTree [] loopingConfig).1 [] loopingConfig).result =
      .error (.outputWriteFailure loopingConfig.output
        "cannot read existing artifact: Not a directory (os error 20)") := by
  obtain ⟨report, content, hmade, htree⟩ := exists_generate_of_written render_loopingTree
    fun content => (writeIfChanged_loopingTree content).1
  have hlink : ¬loopingTree.EndsAtLink [] loopingConfig.output := by
    have hmissing : loopingTree.locate [] false loopingConfig.output = .error .notFound := by cbv
    exact not_endsAtLink hmissing (by simp)
  rw [htree]
  have hplan : (plan (loopingTree.writeIfChanged [] loopingConfig.output content).1 []
      loopingConfig).result = .ok [⟨"std_f".toList, ⟨.ofString "d/f", .ofString "f"⟩⟩] := by cbv
  obtain ⟨⟨table, artifact⟩, hrender⟩ := (exists_render_iff hplan).2
    (List.forall_mem_singleton.2 ⟨"hi", by cbv, by decide⟩)
  have hafter := (writeIfChanged_loopingTree content).2
  refine ⟨report, hmade, hlink, ?_, ?_⟩
  · have hnowhere : (loopingTree.writeIfChanged [] loopingConfig.output content).1.resolve []
        loopingConfig.output = .error .notDirectory := by cbv
    rintro ⟨_, _, file, _, _, _, hto⟩
    cases hnowhere.symm.trans hto
  · rw [result_check hrender, freshness, path_of_render hrender, hafter]
    rfl

def nameNewdir : Name := ⟨[0x6e, 0x65, 0x77, 0x64, 0x69, 0x72], by decide⟩

/-- Below the input the new directory `newdir` has a path of 4096 bytes. -/
def overlongConfig : Config :=
  { Config.standard with input := slashed 4089, output := .ofString "d/newdir/h" }

theorem resolve_belowSlashed {count : Nat} (h : count < 4093) :
    smallTree.resolve [] (belowSlashed (count + 1)) = .ok [nameF, nameD] := by
  have hcheck : checkPath (belowSlashed (count + 1)) = .ok () := by
    rw [belowSlashed, checkPath_slashed (by decide), if_neg]
    simp only [pathLimit, nameF, List.length_singleton]
    omega
  have hsteps : (belowSlashed (count + 1)).steps = [.name nameD, .name nameF] := by
    rw [belowSlashed, ← join_slashed, Path.steps_join_ofNames _ (by simp), bareSteps_slashed]
    rfl
  have hrelative : (belowSlashed (count + 1)).isAbsolute = false := rfl
  rw [resolve, hcheck, hsteps, startOf, hrelative]
  cbv

theorem render_overlongConfig : ∃ made, (render smallTree [] overlongConfig).result = .ok made := by
  have hkey : KeyStyle.standard.derive (.ofString "f") = .ok "std_f".toList := by cbv
  have hplan : (plan smallTree [] overlongConfig).result =
      .ok [⟨"std_f".toList, ⟨belowSlashed 4089, .ofString "f"⟩⟩] := by
    refine plan_eq_ok_iff.2 ⟨walk_slashed (by decide), fun p hp => ?_, by simp⟩
    rw [List.mem_singleton.1 hp]
    exact hkey
  have hcontent : Holds smallTree [] (belowSlashed 4089) "hi" :=
    contentAt_eq_ok_iff.2 ⟨_, 0o644, resolve_belowSlashed (by decide), by cbv⟩
  exact (exists_render_iff hplan).2 (List.forall_mem_singleton.2 ⟨"hi", hcontent, by decide⟩)

/-- The header is put in a directory that the walk cannot open. -/
theorem check_overlongConfig : ∃ report,
    (generate smallTree [] overlongConfig).2.result = .ok report ∧
    ¬smallTree.EndsAtLink [] overlongConfig.output ∧
    ¬FindsOutput (generate smallTree [] overlongConfig).1 [] overlongConfig ∧
    (check (generate smallTree [] overlongConfig).1 [] overlongConfig).result =
      .error (Walk.openFailure ⟨(slashed 4089).bytes ++ nameNewdir.bytes⟩ .nameTooLong) := by
  obtain ⟨report, content, hmade, htree⟩ := exists_generate_of_written render_overlongConfig
    fun content => show (smallTree.writeIfChanged [] (.ofString "d/newdir/h") content).2 = _ by cbv
  have hlink : ¬smallTree.EndsAtLink [] overlongConfig.output := by
    have hmissing : smallTree.locate [] false (.ofString "d/newdir/h") = .error .notFound := by cbv
    exact not_endsAtLink hmissing (by simp)
  have hwalk : ((generate smallTree [] overlongConfig).1.walk [] (slashed 4089) [] false).result =
      .error (Walk.openFailure ⟨(slashed 4089).bytes ++ nameNewdir.bytes⟩ .nameTooLong) := by
    rw [htree, show overlongConfig.output = .ofString "d/newdir/h" from rfl]
    have hroot : (smallTree.writeIfChanged [] (.ofString "d/newdir/h") content).1.resolveFrom []
        [.name nameD, .current] = .ok [nameD] := by cbv
    have hnames : (smallTree.writeIfChanged [] (.ofString "d/newdir/h") content).1.names [nameD] =
        [nameNewdir, nameF] := by cbv
    have hentry : (smallTree.writeIfChanged [] (.ofString "d/newdir/h") content).1.find?
        [nameNewdir, nameD] = some (.directory 0o755) := by cbv
    exact Walk.walk_slashed_of_overlong (by decide) hroot hnames hentry (checkPath_slashed (by decide))
  refine ⟨report, hmade, hlink, ?_, result_check_of_error (render_of_walk_error hwalk)⟩
  rintro ⟨_, _, _, hsources, _⟩
  cases hwalk.symm.trans hsources

/-- The header cannot be found up to date after a generation whose output runs through the link that it
replaces, nor after one that makes a directory with too long a path. -/
theorem exists_not_settled :
    (∃ report, (generate loopingTree [] loopingConfig).2.result = .ok report ∧
      ¬loopingTree.EndsAtLink [] loopingConfig.output ∧
      ¬FindsOutput (generate loopingTree [] loopingConfig).1 [] loopingConfig ∧
      ¬Settled (generate loopingTree [] loopingConfig).1 [] loopingConfig report) ∧
    ∃ report, (generate smallTree [] overlongConfig).2.result = .ok report ∧
      ¬smallTree.EndsAtLink [] overlongConfig.output ∧
      ¬FindsOutput (generate smallTree [] overlongConfig).1 [] overlongConfig ∧
      ¬Settled (generate smallTree [] overlongConfig).1 [] overlongConfig report := by
  obtain ⟨report, hmade, hlink, hfinds, hcheck⟩ := check_loopingTree
  obtain ⟨report', hmade', hlink', hfinds', hcheck'⟩ := check_overlongConfig
  refine ⟨⟨report, hmade, hlink, hfinds, fun hsettled => ?_⟩,
    ⟨report', hmade', hlink', hfinds', fun hsettled => ?_⟩⟩
  · obtain ⟨seen, hseen, _⟩ := hsettled.checked
    cases hcheck.symm.trans hseen
  · obtain ⟨seen, hseen, _⟩ := hsettled.checked
    cases hcheck'.symm.trans hseen

end AssetBake.Job
