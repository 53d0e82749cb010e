import AssetBake.Proofs.Header.RoundTrip
import AssetBake.Proofs.Job.Planning
import AssetBake.Proofs.Path.Names

/-!
# Collecting

The table of a job has one asset for each planned file, in the order of the plan, with the key and the
text of that file, and a look-up by that key finds that text. All files are read before any text is
rendered, so a file that gives no text is reported before one that cannot be embedded.
-/

namespace AssetBake

/-! ### Looking up -/

namespace Table

theorem get?_of_mem {table : Table} (hdistinct : table.keys.Nodup) {asset : Asset}
    (h : asset ∈ table.assets) : table.get? asset.key = some asset.content := by
  obtain ⟨found, hfound⟩ : ∃ found, table.assets.find? (fun a => a.key == asset.key) = some found :=
    Option.isSome_iff_exists.1 (List.find?_isSome.2 ⟨asset, h, beq_self_eq_true _⟩)
  have hkey : found.key = asset.key := by simpa using List.find?_some hfound
  have hsame := List.inj_on_of_nodup_map hdistinct (List.mem_of_find?_eq_some hfound) h hkey
  rw [get?, hfound, hsame]
  rfl

theorem get?_eq_none {table : Table} {key : List Char} (h : key ∉ table.keys) :
    table.get? key = none := by
  rw [get?, Option.map_eq_none_iff, List.find?_eq_none]
  intro asset hasset hkey
  exact h (List.mem_map.2 ⟨asset, hasset, by simpa using hkey⟩)

end Table

namespace Job

/-! ### Reading one file -/

/-- The path leads to a file that holds exactly a text. -/
def Holds (t : FileTree) (cwd : Location) (p : Path) (text : String) : Prop :=
  t.contentAt cwd p = .ok (Text.Utf8.encode text)

theorem readText_eq_ok_iff {t : FileTree} {cwd : Location} {p : Path} {text : String} :
    readText t cwd p = .ok text ↔ Holds t cwd p text := by
  rw [readText, Holds]
  cases t.contentAt cwd p with
  | error fault => simp
  | ok bytes =>
    simp only [Except.ok.injEq]
    rw [@eq_comm _ bytes, ← Text.Utf8.decode?_eq_some_iff]
    cases Text.Utf8.decode? bytes <;> simp

theorem exists_reason_of_readText {t : FileTree} {cwd : Location} {p : Path} {failure : Failure}
    (h : readText t cwd p = .error failure) : ∃ reason, failure = .assetReadFailure p reason := by
  rw [readText] at h
  cases hcontent : t.contentAt cwd p with
  | error fault =>
    rw [hcontent] at h
    cases h
    exact ⟨_, rfl⟩
  | ok bytes =>
    simp only [hcontent] at h
    split at h
    · cases h
    · cases h
      exact ⟨_, rfl⟩

/-- The asset that a planned file becomes. -/
def readAsset (t : FileTree) (cwd : Location) (p : Planned) : Except Failure Asset :=
  (readText t cwd p.source.full).map (⟨p.key, p.source, ·⟩)

theorem readAll_eq_mapM {t : FileTree} {cwd : Location} (planned : List Planned) :
    (readAll t cwd planned).result = planned.mapM (readAsset t cwd) := by
  induction planned with
  | nil => rfl
  | cons p rest ih =>
    simp only [readAll, List.mapM_cons, ← ih, readAsset, Traced.result_bind, Traced.result_note,
      Traced.result_ofExcept, Traced.result_pure, Except.ok_bind]
    cases readText t cwd p.source.full <;> rfl

/-- A planned file and the asset with its key and its text. -/
structure IsAssetOf (t : FileTree) (cwd : Location) (p : Planned) (asset : Asset) : Prop where
  key : asset.key = p.key
  source : asset.source = p.source
  content : Holds t cwd p.source.full asset.content

theorem readAsset_eq_ok_iff {t : FileTree} {cwd : Location} {p : Planned} {asset : Asset} :
    readAsset t cwd p = .ok asset ↔ IsAssetOf t cwd p asset := by
  rw [readAsset, Except.map_eq_ok_iff]
  constructor
  · rintro ⟨text, htext, rfl⟩
    exact ⟨rfl, rfl, readText_eq_ok_iff.1 htext⟩
  · rintro ⟨hkey, hsource, hcontent⟩
    exact ⟨asset.content, readText_eq_ok_iff.2 hcontent, by rw [← hkey, ← hsource]⟩

/-! ### All files, then all entries -/

/-- A table has the planned files in their order, each found under its key and nothing else found. -/
structure Embeds (t : FileTree) (cwd : Location) (planned : List Planned) (table : Table) :
    Prop where
  size : table.size = planned.length
  found : ∀ (i : Nat) (p : Planned), planned[i]? = some p → ∃ asset, table.assets[i]? = some asset ∧
    IsAssetOf t cwd p asset ∧ table.get? p.key = some asset.content
  absent : ∀ key, key ∉ planned.map (·.key) → table.get? key = none

theorem keys_eq_of_forall₂ {t : FileTree} {cwd : Location} {planned : List Planned}
    {assets : List Asset} (h : List.Forall₂ (IsAssetOf t cwd) planned assets) :
    Table.keys ⟨assets⟩ = planned.map (·.key) := by
  rw [Table.keys]
  induction h with
  | nil => rfl
  | cons hasset _ ih => rw [List.map_cons, List.map_cons, ih, hasset.key]

theorem Embeds.of_forall₂ {t : FileTree} {cwd : Location} {planned : List Planned}
    {assets : List Asset} (hdistinct : (planned.map (·.key)).Nodup)
    (h : List.Forall₂ (IsAssetOf t cwd) planned assets) : Embeds t cwd planned ⟨assets⟩ := by
  have hkeys := keys_eq_of_forall₂ h
  refine ⟨h.length_eq.symm, fun i p hp => ?_, fun key hkey => ?_⟩
  · obtain ⟨hi, rfl⟩ := List.getElem?_eq_some_iff.1 hp
    have hi' : i < assets.length := h.length_eq ▸ hi
    have hasset : IsAssetOf t cwd planned[i] assets[i] := h.get hi hi'
    refine ⟨assets[i], List.getElem?_eq_getElem hi', hasset, ?_⟩
    rw [← hasset.key]
    exact Table.get?_of_mem (by rwa [hkeys]) (List.getElem_mem hi')
  · exact Table.get?_eq_none (by rwa [hkeys])

/-- Why the files of a plan cannot be embedded: the first one that gives no text, or, if all do, the
first one whose text cannot be written. -/
inductive Rejection (t : FileTree) (cwd : Location) (literals : LiteralStyle)
    (planned : List Planned) : Failure → Prop
  | unread {front back : List Planned} {p : Planned} {reason : String}
      (hsplit : planned = front ++ p :: back)
      (hfront : ∀ q ∈ front, ∃ text, Holds t cwd q.source.full text)
      (hp : ¬∃ text, Holds t cwd p.source.full text) :
      Rejection t cwd literals planned (.assetReadFailure p.source.full reason)
  | unwritable {front back : List Planned} {p : Planned} {text : String} {fault : Literal.ContentFault}
      (hread : ∀ q ∈ planned, ∃ text, Holds t cwd q.source.full text)
      (hsplit : planned = front ++ p :: back)
      (hfront : ∀ q ∈ front, ∃ text, Holds t cwd q.source.full text ∧
        literals.check text.toList = .ok ())
      (hp : Holds t cwd p.source.full text) (hcheck : literals.check text.toList = .error fault) :
      Rejection t cwd literals planned (fault.failure p.source.relative)

theorem render_eq_of_plan {t : FileTree} {cwd : Location} {config : Config} {planned : List Planned}
    (hplan : (plan t cwd config).result = .ok planned) :
    (render t cwd config).result = planned.mapM (readAsset t cwd) >>= fun assets =>
      (config.headerStyle.render ⟨assets⟩).map fun header =>
        (⟨assets⟩, ⟨config.output, String.ofList header⟩) := by
  simp only [render, collect, Traced.result_bind, hplan, readAll_eq_mapM, Except.ok_bind,
    Traced.result_pure, Traced.result_ofExcept]
  cases planned.mapM (readAsset t cwd) with
  | error failure => rfl
  | ok assets =>
    simp only [Except.ok_bind]
    cases config.headerStyle.render ⟨assets⟩ <;> rfl

theorem exists_plan_of_render {t : FileTree} {cwd : Location} {config : Config}
    {made : Table × Artifact} (hrender : (render t cwd config).result = .ok made) :
    ∃ planned, (plan t cwd config).result = .ok planned := by
  rw [render, Traced.result_bind, Except.bind_eq_ok_iff] at hrender
  obtain ⟨_, hcollect, _⟩ := hrender
  rw [collect, Traced.result_bind, Except.bind_eq_ok_iff] at hcollect
  obtain ⟨planned, hplan, _⟩ := hcollect
  exact ⟨planned, hplan⟩

/-- A job that renders has read all its files and has written all their texts. -/
theorem render_eq_ok_iff {t : FileTree} {cwd : Location} {config : Config} {planned : List Planned}
    (hplan : (plan t cwd config).result = .ok planned) {table : Table} {artifact : Artifact} :
    (render t cwd config).result = .ok (table, artifact) ↔
      List.Forall₂ (IsAssetOf t cwd) planned table.assets ∧ ∃ header,
        config.headerStyle.render table = .ok header ∧
        artifact = ⟨config.output, String.ofList header⟩ := by
  simp only [render_eq_of_plan hplan, Except.bind_eq_ok_iff, Except.map_eq_ok_iff, mapM_eq_ok_iff,
    readAsset_eq_ok_iff, Prod.mk.injEq]
  constructor
  · rintro ⟨assets, hassets, header, hheader, rfl, rfl⟩
    exact ⟨hassets, header, hheader, rfl⟩
  · rintro ⟨hassets, header, hheader, rfl⟩
    exact ⟨table.assets, hassets, header, hheader, rfl, rfl⟩

theorem check_eq_ok_of_entry {config : Config} {asset : Asset} {text : List Char}
    (h : config.headerStyle.entry asset = .ok text) :
    config.literals.check asset.content.toList = .ok () := by
  obtain ⟨literal, hliteral, _⟩ := HeaderStyle.entry_eq_ok_iff.1 h
  exact ((LiteralStyle.render_eq_ok_iff ..).1 hliteral).1

/-- A planned job that does not render is rejected for its first file that gives no text, or for the
first text that cannot be written. -/
theorem rejection_of_render {t : FileTree} {cwd : Location} {config : Config}
    {planned : List Planned} (hplan : (plan t cwd config).result = .ok planned) {failure : Failure}
    (h : (render t cwd config).result = .error failure) :
    Rejection t cwd config.literals planned failure := by
  rw [render_eq_of_plan hplan, Except.bind_eq_error_iff] at h
  rcases h with hread | ⟨assets, hread, hheader⟩
  · obtain ⟨front, p, back, hsplit, hfront, hp⟩ := mapM_eq_error_iff.1 hread
    have hp := Except.map_eq_error_iff.1 hp
    obtain ⟨reason, rfl⟩ := exists_reason_of_readText hp
    refine .unread hsplit (fun q hq => ?_) ?_
    · obtain ⟨asset, hasset⟩ := hfront q hq
      exact ⟨asset.content, (readAsset_eq_ok_iff.1 hasset).content⟩
    · rintro ⟨text, htext⟩
      cases hp.symm.trans (readText_eq_ok_iff.2 htext)
  · have hassets : List.Forall₂ (IsAssetOf t cwd) planned assets := by
      simpa only [mapM_eq_ok_iff, readAsset_eq_ok_iff] using hread
    obtain ⟨front, asset, back, hsplit, hfront, hasset⟩ :=
      HeaderStyle.render_eq_error_iff.1 (Except.map_eq_error_iff.1 hheader)
    obtain ⟨fault, hcheck, rfl⟩ := HeaderStyle.entry_eq_error_iff.1 hasset
    obtain rfl : assets = front ++ asset :: back := hsplit
    -- The plan splits where the table does.
    have hbefore := List.forall₂_take_append _ _ _ hassets
    obtain ⟨p, after, hp, _, hdrop⟩ :=
      List.forall₂_cons_right_iff.1 (List.forall₂_drop_append _ _ _ hassets)
    rw [hp.source]
    refine .unwritable (fun q hq => ?_)
      ((List.take_append_drop front.length planned).symm.trans (congrArg _ hdrop))
      (fun q hq => ?_) hp.content hcheck
    · obtain ⟨a, _, ha⟩ := exists_of_mem_forall₂ hassets hq
      exact ⟨a.content, ha.content⟩
    · obtain ⟨a, hmem, ha⟩ := exists_of_mem_forall₂ hbefore hq
      obtain ⟨text, htext⟩ := hfront a hmem
      exact ⟨a.content, ha.content, check_eq_ok_of_entry htext⟩

/-- Whether a file can be read by its path and has a text that can be written. -/
def Embeddable (t : FileTree) (cwd : Location) (literals : LiteralStyle) (p : Planned) : Prop :=
  ∃ text, Holds t cwd p.source.full text ∧ literals.check text.toList = .ok ()

theorem Rejection.exists_not_embeddable {t : FileTree} {cwd : Location} {literals : LiteralStyle}
    {planned : List Planned} {failure : Failure} (h : Rejection t cwd literals planned failure) :
    ∃ p ∈ planned, ¬Embeddable t cwd literals p := by
  cases h with
  | unread hsplit _ hp =>
    exact ⟨_, by simp [hsplit], fun ⟨text, htext, _⟩ => hp ⟨text, htext⟩⟩
  | @unwritable _ _ p text _ _ hsplit _ hp hcheck =>
    refine ⟨p, by simp [hsplit], fun ⟨other, hother, hok⟩ => ?_⟩
    have hsame : text = other := Text.Utf8.encode_injective (Except.ok.inj (hp.symm.trans hother))
    rw [← hsame, hcheck] at hok
    cases hok

theorem exists_render_iff {t : FileTree} {cwd : Location} {config : Config} {planned : List Planned}
    (hplan : (plan t cwd config).result = .ok planned) :
    (∃ made, (render t cwd config).result = .ok made) ↔
      ∀ p ∈ planned, Embeddable t cwd config.literals p := by
  constructor
  · rintro ⟨⟨table, artifact⟩, hrender⟩ p hp
    obtain ⟨hassets, header, hheader, _⟩ := (render_eq_ok_iff hplan).1 hrender
    obtain ⟨entries, hentries, _⟩ := HeaderStyle.render_eq_ok_iff.1 hheader
    obtain ⟨asset, hasset, hof⟩ := exists_of_mem_forall₂ hassets hp
    obtain ⟨text, _, htext⟩ := exists_of_mem_forall₂ hentries hasset
    exact ⟨asset.content, hof.content, check_eq_ok_of_entry htext⟩
  · intro hall
    rcases Except.ok_or_error (render t cwd config).result with hmade | ⟨failure, hfailure⟩
    · exact hmade
    · obtain ⟨p, hp, hnot⟩ := (rejection_of_render hplan hfailure).exists_not_embeddable
      exact absurd (hall p hp) hnot

/-- A planned job renders just if every file can be read and has a text that can be written. The table
then has each planned file with its key and exactly its text, and a look-up finds that text by the key
and nothing by any other. Else the first file that gives no text is reported, and only if all do the
first one whose text cannot be written. -/
theorem render_of_plan {t : FileTree} {cwd : Location} {config : Config} {planned : List Planned}
    (hplan : (plan t cwd config).result = .ok planned) :
    ((∃ made, (render t cwd config).result = .ok made) ↔
      ∀ p ∈ planned, Embeddable t cwd config.literals p) ∧
    (∀ table artifact, (render t cwd config).result = .ok (table, artifact) →
      Embeds t cwd planned table) ∧
    (∀ failure, (render t cwd config).result = .error failure →
      Rejection t cwd config.literals planned failure) := by
  refine ⟨exists_render_iff hplan, ?_, fun failure => rejection_of_render hplan⟩
  intro table artifact hrender
  have hassets := ((render_eq_ok_iff hplan).1 hrender).1
  exact .of_forall₂ (plan_eq_ok_iff.1 hplan).2.distinct hassets

/-! ### Two small trees -/

def nameF : Name := ⟨[0x66], by decide⟩

def nameE : Name := ⟨[0x65], by decide⟩

/-- A directory `d` with a file `f`. -/
def smallTree : FileTree where
  entries := [([nameD], .directory 0o755), ([nameF, nameD], .file 0o644 [0x68, 0x69])]
  distinct := by decide
  rooted := by simp

/-- A directory `d` with a file `d`, a file `f`, and a file `f` in a directory `e`. -/
def nestedTree : FileTree where
  entries := [([nameD], .directory 0o755), ([nameF, nameD], .file 0o644 [0x68, 0x69]),
    ([nameE, nameD], .directory 0o755), ([nameF, nameE, nameD], .file 0o600 [0x68, 0x6f]),
    ([nameD, nameD], .file 0o644 [])]
  distinct := by decide
  rooted := by simp

/-- The standard settings with the input `d`. -/
def configD : Config :=
  { Config.standard with input := .ofString "d" }

/-- What a job finds in the directory `d` of the tree. -/
def nestedPlan : List Planned :=
  [⟨"std_d".toList, ⟨.ofString "d/d", .ofString "d"⟩⟩,
    ⟨"std_e_f".toList, ⟨.ofString "d/e/f", .ofString "e/f"⟩⟩,
    ⟨"std_f".toList, ⟨.ofString "d/f", .ofString "f"⟩⟩]

theorem plan_nestedTree : (plan nestedTree [] configD).result = .ok nestedPlan := by cbv

theorem embeddable_nestedPlan :
    ∀ p ∈ nestedPlan, Embeddable nestedTree [] configD.literals p := by
  simp only [nestedPlan, List.forall_mem_cons]
  exact ⟨⟨"", by cbv, by decide⟩, ⟨"ho", by cbv, by decide⟩, ⟨"hi", by cbv, by decide⟩, by simp⟩

theorem render_nestedTree :
    (plan nestedTree [] configD).result = .ok nestedPlan ∧
    ∃ table artifact, (render nestedTree [] configD).result = .ok (table, artifact) ∧
      Embeds nestedTree [] nestedPlan table := by
  obtain ⟨hrenders, hembeds, -⟩ := render_of_plan plan_nestedTree
  obtain ⟨⟨table, artifact⟩, hrender⟩ := hrenders.2 embeddable_nestedPlan
  exact ⟨plan_nestedTree, table, artifact, hrender, hembeds table artifact hrender⟩

/-! ### A file with too long a path

The system takes a path of 4095 bytes for the input, but none of 4096 bytes for a file below it. Such
a file is found and planned, and then it cannot be read, whatever it holds. -/

/-- The path `d` with slashes behind it. -/
def slashed (count : Nat) : Path :=
  ⟨0x64 :: List.replicate count slash⟩

/-- The path of the file `f` in the directory at such a path. -/
def belowSlashed (count : Nat) : Path :=
  ⟨(slashed count).bytes ++ nameF.bytes⟩

theorem splitOn_slashed (count : Nat) :
    (slashed count).bytes.splitOn slash = [0x64] :: List.replicate count [] := by
  rw [slashed]
  induction count with
  | zero => rfl
  | succ count ih =>
    rw [List.replicate_succ', ← List.cons_append, Text.splitOn_append_cons, ih, List.splitOn_nil,
      List.replicate_succ', List.cons_append]

theorem bareSteps_slashed (count : Nat) : (slashed count).bareSteps = [.name nameD] := by
  rw [Path.bareSteps, splitOn_slashed, List.filterMap_cons, List.filterMap_replicate_of_none rfl]
  rfl

theorem components_slashed (count : Nat) : (slashed count).components = [.name nameD] := by
  have hpieces := splitOn_slashed count
  simp only [slashed] at hpieces
  simp only [Path.components, slashed]
  rw [if_neg (by decide), hpieces]
  simp only
  rw [List.filterMap_replicate_of_none rfl]
  rfl

theorem isStandardInput_slashed (count : Nat) : Walk.isStandardInput (slashed count) = false := by
  rw [Walk.isStandardInput, components_slashed]
  rfl

theorem endsInSlash_slashed (count : Nat) : (slashed (count + 1)).endsInSlash = true := by
  simp [Path.endsInSlash, slashed, List.replicate_succ', List.getLast?_cons]

theorem resolve_eq_of_slashed (t : FileTree) {count : Nat} (h : count < 4094) :
    t.resolve [] (slashed (count + 1)) = t.resolveFrom [] [.name nameD, .current] := by
  have hcheck : FileTree.checkPath (slashed (count + 1)) = .ok () := by
    simp [FileTree.checkPath, slashed, FileTree.pathLimit, slash]
    omega
  have hsteps : (slashed (count + 1)).steps = [.name nameD, .current] := by
    rw [Path.steps, bareSteps_slashed, endsInSlash_slashed]
    rfl
  have hrelative : (slashed (count + 1)).isAbsolute = false := rfl
  rw [FileTree.resolve, hcheck, hsteps, FileTree.startOf, hrelative]
  rfl

theorem resolve_slashed {count : Nat} (h : count < 4094) :
    smallTree.resolve [] (slashed (count + 1)) = .ok [nameD] := by
  rw [resolve_eq_of_slashed smallTree h]
  cbv

theorem join_slashed (count : Nat) (n : Name) :
    (slashed (count + 1)).join (.ofNames [n]) = ⟨(slashed (count + 1)).bytes ++ n.bytes⟩ := by
  have hlast := endsInSlash_slashed count
  rw [Path.endsInSlash, beq_iff_eq] at hlast
  rw [Path.join, Path.isAbsolute_ofNames, hlast]
  simp [Path.ofNames]

theorem checkPath_slashed {count : Nat} {n : Name} (hn : 0 ∉ n.bytes) :
    FileTree.checkPath ⟨(slashed count).bytes ++ n.bytes⟩ =
      if FileTree.pathLimit ≤ count + n.bytes.length + 1 then .error .nameTooLong else .ok () := by
  have hnul : ((slashed count).bytes ++ n.bytes).contains 0 = false := by simp [slashed, slash, hn]
  have hempty : ((slashed count).bytes ++ n.bytes).isEmpty = false := by simp [slashed]
  have hlength : ((slashed count).bytes ++ n.bytes).length = count + n.bytes.length + 1 := by
    simp [slashed]
  simp only [FileTree.checkPath, hnul, hempty, hlength, Bool.false_eq_true, if_false]

theorem look_of_file {t : FileTree} {rules : Walk.Rules} {chain : List Walk.Stop} {here : Walk.Stop}
    {n : Name} {mode : Nat} {content : List UInt8}
    (h : t.find? (n :: here.place) = some (.file mode content)) :
    Walk.look t rules chain here n = do
      return if ← rules.admit (here.way ++ [n]) false then .file else .nothing := by
  rw [Walk.look]
  split <;> simp_all

theorem admit_of_no_rules {rules : Walk.Rules} (h : rules.exclude.rules = []) (way : List Name)
    (isDirectory : Bool) : rules.admit way isDirectory = pure true := by
  unfold Walk.Rules.admit
  simp [ExcludeList.verdict, h]

theorem walk_slashed {count : Nat} (h : count < 4094) :
    (smallTree.walk [] (slashed (count + 1)) [] false).result =
      .ok [⟨belowSlashed (count + 1), .ofString "f"⟩] := by
  have hinput := isStandardInput_slashed (count + 1)
  have hlines : ExcludeList.ofLines (slashed (count + 1)) [] =
      .ok ⟨⟨dropLeadingCurrent (slashed (count + 1)).bytes⟩, []⟩ := rfl
  have hnames : smallTree.names [nameD] = [nameF] := by cbv
  have hdirectory : smallTree.isDirectory [nameD] = true := by cbv
  have hfile : smallTree.find? [nameF, nameD] = some (.file 0o644 [0x68, 0x69]) := by cbv
  rw [FileTree.walk, resolve_slashed h]
  simp only [hdirectory, hlines, if_true, hinput, hnames]
  rw [Walk.visit, Walk.visit, look_of_file hfile, admit_of_no_rules rfl]
  simp [Walk.Rules.take, Walk.Rules.source, join_slashed, belowSlashed]
  decide

theorem readText_belowSlashed {count : Nat} (h : 4094 ≤ count) :
    readText smallTree [] (belowSlashed count) =
      .error (.assetReadFailure (belowSlashed count) "File name too long (os error 36)") := by
  have hcheck : FileTree.checkPath (belowSlashed count) = .error .nameTooLong := by
    rw [belowSlashed, checkPath_slashed (by decide), if_pos]
    exact Nat.add_le_add_right h 2
  rw [readText, FileTree.contentAt, FileTree.stat, FileTree.resolve, hcheck]
  rfl

/-- The file can be planned and holds a text that can be written, but the job does not render. -/
theorem render_overlong :
    (plan smallTree [] { Config.standard with input := slashed 4094 }).result =
      .ok [⟨"std_f".toList, ⟨belowSlashed 4094, .ofString "f"⟩⟩] ∧
    smallTree.find? [nameF, nameD] = some (.file 0o644 (Text.Utf8.encode "hi")) ∧
    Config.standard.literals.check "hi".toList = .ok () ∧
    (render smallTree [] { Config.standard with input := slashed 4094 }).result =
      .error (.assetReadFailure (belowSlashed 4094) "File name too long (os error 36)") := by
  have hkey : KeyStyle.standard.derive (.ofString "f") = .ok "std_f".toList := by cbv
  have hplan : (plan smallTree [] { Config.standard with input := slashed 4094 }).result =
      .ok [⟨"std_f".toList, ⟨belowSlashed 4094, .ofString "f"⟩⟩] := by
    refine plan_eq_ok_iff.2 ⟨walk_slashed (by decide), fun p hp => ?_, by simp⟩
    rw [List.mem_singleton.1 hp]
    exact hkey
  refine ⟨hplan, by cbv, by decide, ?_⟩
  rw [render_eq_of_plan hplan, List.mapM_cons, readAsset, readText_belowSlashed (by decide)]
  rfl

end Job

end AssetBake
