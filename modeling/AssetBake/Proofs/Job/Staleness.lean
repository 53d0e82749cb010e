import AssetBake.Proofs.Diff.Patch
import AssetBake.Proofs.Job.Fixpoint
import AssetBake.Proofs.Session.EventStream
import AssetBake.Proofs.Text.Lossy

/-!
# Out-of-date headers

A header on disk is out of date if its bytes differ from those of a fresh one. What is reported of it is
its text, with a replacement character for each broken stretch of bytes. So the text reported differs from
the fresh header, and the diff that is printed has a hunk, unless bytes are broken just where the fresh
header has replacement characters.
-/

namespace AssetBake.Job

open FileTree Text Session

variable {t : FileTree} {cwd : Location} {config : Config} {seen : CheckReport} {existing : String}

/-- A header found out of date is there, with other bytes than a fresh one. -/
theorem exists_bytes_of_stale (hcheck : (check t cwd config).result = .ok seen)
    (hstale : seen.freshness = .stale existing) :
    ∃ bytes, t.contentAt cwd config.output = .ok bytes ∧ bytes ≠ Utf8.encode seen.artifact.content ∧
      existing = Utf8.decodeLossy bytes := by
  rcases Except.ok_or_error (render t cwd config).result with
    ⟨⟨table, artifact⟩, hrender⟩ | ⟨_, hfailure⟩
  · rw [result_check hrender] at hcheck
    obtain ⟨found, hfound, rfl⟩ := Except.map_eq_ok_iff.1 hcheck
    rw [freshness, path_of_render hrender] at hfound
    cases hread : t.contentAt cwd config.output with
    | ok bytes =>
      rw [hread] at hfound
      dsimp only at hfound hstale
      split at hfound
      · cases hfound.trans (congrArg _ hstale)
      · next hne =>
        cases hfound.trans (congrArg _ hstale)
        exact ⟨bytes, rfl, hne, rfl⟩
    | error fault =>
      rw [hread] at hfound
      cases fault <;> cases hfound.trans (congrArg _ hstale)
  · cases hcheck.symm.trans (result_check_of_error hfailure)

/-- A comparison for a person prints the diff between what was found and the fresh header. -/
theorem shown_of_stale {around : Surroundings} {arguments : CommandLine.Arguments}
    (hjson : arguments.json = false) (hquiet : arguments.quiet = false)
    (hcheck : (check t around.cwd config).result = .ok seen)
    (hstale : seen.freshness = .stale existing) :
    .shown (Diff.unified seen.artifact.path.display existing seen.artifact.content 3
        around.outputCapabilities.color) ∈ (Session.check t around arguments config).notes := by
  have hshow : showCheck around arguments seen =
      [.shown (Diff.unified seen.artifact.path.display existing seen.artifact.content 3
          around.outputCapabilities.color),
        .shown (Report.checkResult around.outputCapabilities seen)] := by
    simp [showCheck, hstale, hjson, hquiet]
  simp only [Session.check, begin, Part.say, Part.ofLogged, Traced.notes_bind, Traced.result_note,
    Traced.notes_note, Traced.result_mapNotes, Traced.notes_mapNotes, hcheck, hshow]
  simp

/-- What is reported of a header out of date differs from a fresh one, and the diff that is printed has a
hunk then, unless the header on disk is no text and the fresh one has a replacement character. -/
theorem stale_differs {around : Surroundings}
    (hcheck : (check t around.cwd config).result = .ok seen)
    (hstale : seen.freshness = .stale existing) :
    ∃ bytes, t.contentAt around.cwd config.output = .ok bytes ∧
      bytes ≠ Utf8.encode seen.artifact.content ∧ existing = Utf8.decodeLossy bytes ∧
      (Utf8.decode? bytes ≠ none ∨ Utf8.replacement ∉ seen.artifact.content.toList →
        existing ≠ seen.artifact.content) ∧
      ∀ arguments : CommandLine.Arguments, arguments.json = false → arguments.quiet = false →
        ∃ diff, .shown diff ∈ (Session.check t around arguments config).notes ∧
          diff = Diff.unified seen.artifact.path.display existing seen.artifact.content 3
            around.outputCapabilities.color ∧
          (Diff.HasHunk seen.artifact.path.display around.outputCapabilities.color diff ↔
            existing ≠ seen.artifact.content) := by
  obtain ⟨bytes, hread, hne, rfl⟩ := exists_bytes_of_stale hcheck hstale
  refine ⟨bytes, hread, hne, rfl, fun hplain hsame => ?_, fun arguments hjson hquiet =>
    ⟨_, shown_of_stale hjson hquiet hcheck hstale, rfl, Diff.hasHunk_unified_iff⟩⟩
  obtain ⟨hbroken, hmem⟩ := Utf8.of_decodeLossy_eq hsame hne
  rcases hplain with htext | hnone
  · exact htext hbroken
  · exact hnone hmem

/-! ### A header with a broken character -/

/-- The directory `d` with the file `f`, which holds a replacement character, and a file `h`. -/
def staleTree (bytes : List UInt8) : FileTree where
  entries := [([nameD], .directory 0o755), ([nameF, nameD], .file 0o644 [0xef, 0xbf, 0xbd]),
    ([nameH], .file 0o644 bytes)]
  distinct := (by decide : [[nameD], [nameF, nameD], [nameH]].Nodup)
  rooted := by simp

/-- The header of `d` is to be at `h`. -/
def staleConfig : Config :=
  { Config.standard with input := .ofString "d", output := .ofString "h" }

/-- The header of `d` up to the replacement character. -/
def staleFront : List Char :=
  staleConfig.headerStyle.opening 1 ++ "    \x7b\"std_f\", R\"__DELIM__(".toList

/-- The header of `d` from the replacement character on. -/
def staleBack : List Char :=
  ")__DELIM__\"\x7d,\n".toList ++ staleConfig.headerStyle.closing

/-- The header of one asset. -/
theorem render_singleton {style : HeaderStyle} {asset : Asset} {entry : List Char}
    (h : style.entry asset = .ok entry) :
    style.render ⟨[asset]⟩ = .ok (style.opening 1 ++ entry ++ style.closing) := by
  rw [HeaderStyle.render, List.mapM_cons, h]
  simp [Table.size]

theorem render_staleTree (bytes : List UInt8) : ∃ table,
    (render (staleTree bytes) [] staleConfig).result = .ok (table, ⟨.ofString "h",
      String.ofList (staleFront ++ Utf8.replacement :: staleBack)⟩) := by
  have hplan : (plan (staleTree bytes) [] staleConfig).result =
      .ok [⟨"std_f".toList, ⟨.ofString "d/f", .ofString "f"⟩⟩] := by cbv
  have hasset : readAsset (staleTree bytes) [] ⟨"std_f".toList, ⟨.ofString "d/f", .ofString "f"⟩⟩ =
      .ok ⟨"std_f".toList, ⟨.ofString "d/f", .ofString "f"⟩, "\ufffd"⟩ := by cbv
  have hentry : staleConfig.headerStyle.entry
      ⟨"std_f".toList, ⟨.ofString "d/f", .ofString "f"⟩, "\ufffd"⟩ =
        .ok ("    \x7b\"std_f\", R\"__DELIM__(".toList ++ Utf8.replacement ::
          ")__DELIM__\"\x7d,\n".toList) := by cbv
  have hparts (a b d e : List Char) (c : Char) :
      a ++ (b ++ c :: d) ++ e = (a ++ b) ++ c :: (d ++ e) := by
    simp
  have hheader := render_singleton hentry
  rw [hparts] at hheader
  refine ⟨⟨[⟨"std_f".toList, ⟨.ofString "d/f", .ofString "f"⟩, "\ufffd"⟩]⟩, ?_⟩
  rw [render_eq_of_plan hplan, List.mapM_cons, hasset, List.mapM_nil, Except.pure_eq,
    Except.ok_bind, Except.ok_bind, Except.pure_eq, Except.ok_bind, hheader]
  rfl

theorem contentAt_staleTree (bytes : List UInt8) :
    (staleTree bytes).contentAt [] staleConfig.output = .ok bytes := by
  cbv

theorem check_staleTree {bytes : List UInt8}
    (hne : bytes ≠ Utf8.encode (String.ofList (staleFront ++ Utf8.replacement :: staleBack))) :
    ∃ seen, (check (staleTree bytes) [] staleConfig).result = .ok seen ∧
      seen.freshness = .stale (Utf8.decodeLossy bytes) ∧
      seen.artifact.content = String.ofList (staleFront ++ Utf8.replacement :: staleBack) := by
  obtain ⟨table, hrender⟩ := render_staleTree bytes
  refine ⟨⟨table.size, ⟨.ofString "h",
    String.ofList (staleFront ++ Utf8.replacement :: staleBack)⟩, .stale (Utf8.decodeLossy bytes)⟩,
      ?_, rfl, rfl⟩
  have hread := contentAt_staleTree bytes
  rw [← path_of_render hrender] at hread
  rw [result_check hrender, freshness, hread]
  simp only [if_neg hne]
  rfl

/-- A header whose text is another is found out of date, and the diff has a hunk. -/
theorem stale_differs_staleTree : ∃ seen,
    (check (staleTree [0x6f]) [] staleConfig).result = .ok seen ∧ seen.freshness = .stale "o" ∧
      "o" ≠ seen.artifact.content ∧
      ∀ arguments : CommandLine.Arguments, arguments.json = false → arguments.quiet = false →
        ∃ diff, .shown diff ∈
            (Session.check (staleTree [0x6f]) ⟨[], ⟨[]⟩, false, false⟩ arguments staleConfig).notes ∧
          Diff.HasHunk seen.artifact.path.display false diff := by
  have hshown : Utf8.decodeLossy [0x6f] = "o" := by decide
  have hne : [0x6f] ≠
      Utf8.encode (String.ofList (staleFront ++ Utf8.replacement :: staleBack)) := by
    intro heq
    have hsame := congrArg Utf8.decodeLossy heq
    rw [Utf8.decodeLossy_encode, hshown] at hsame
    have hmem : Utf8.replacement ∈ "o".toList := by
      rw [hsame, String.toList_ofList]
      exact List.mem_append_right _ List.mem_cons_self
    exact absurd hmem (by decide)
  obtain ⟨seen, hcheck, hstale, -⟩ := check_staleTree hne
  rw [hshown] at hstale
  have hcheckAround : (check (staleTree [0x6f]) (Surroundings.mk [] ⟨[]⟩ false false).cwd
      staleConfig).result = .ok seen := hcheck
  obtain ⟨bytes, hread, -, -, hdiffers, hprinted⟩ := stale_differs hcheckAround hstale
  cases (contentAt_staleTree [0x6f]).symm.trans hread
  have hother := hdiffers (.inl (by decide))
  refine ⟨seen, hcheck, hstale, hother, fun arguments hjson hquiet => ?_⟩
  obtain ⟨diff, hmem, -, hhunk⟩ := hprinted arguments hjson hquiet
  exact ⟨diff, hmem, hhunk.2 hother⟩

/-- A header that has a broken byte where a fresh one has a replacement character is found out of date,
but its text is that of the fresh one, and no diff of the two has a hunk. -/
theorem exists_stale_same : ∃ bytes seen,
    (check (staleTree bytes) [] staleConfig).result = .ok seen ∧
      seen.freshness = .stale seen.artifact.content ∧
      ∀ path context hasColor, ¬Diff.HasHunk path hasColor
        (Diff.unified path seen.artifact.content seen.artifact.content context hasColor) := by
  have hencode : Utf8.encode (String.ofList (staleFront ++ Utf8.replacement :: staleBack)) =
      staleFront.flatMap String.utf8EncodeChar ++
        (0xef :: 0xbf :: 0xbd :: staleBack.flatMap String.utf8EncodeChar) := by
    rw [Utf8.encode_ofList, List.flatMap_append, List.flatMap_cons]
    rfl
  -- The byte FF is shown as one replacement character, whatever follows it.
  have hbroken (rest : List UInt8) :
      Utf8.lossyFrom none (0xff :: rest) = Utf8.replacement :: Utf8.lossyFrom none rest := by
    rw [Utf8.lossyFrom, show Utf8.start 0xff = .broken by decide]
  have hne : staleFront.flatMap String.utf8EncodeChar ++
      (0xff :: staleBack.flatMap String.utf8EncodeChar) ≠
        Utf8.encode (String.ofList (staleFront ++ Utf8.replacement :: staleBack)) := by
    rw [hencode]
    intro heq
    have hhead := (List.cons.inj (List.append_cancel_left heq)).1
    exact absurd hhead (by decide)
  obtain ⟨seen, hcheck, hstale, hcontent⟩ := check_staleTree hne
  refine ⟨_, seen, hcheck, ?_, fun path context hasColor hhunk =>
    Diff.hasHunk_unified_iff.1 hhunk rfl⟩
  have hback := Utf8.lossyFrom_flatMap staleBack []
  rw [List.append_nil, Utf8.lossyFrom, List.append_nil] at hback
  rw [hstale, hcontent, Utf8.decodeLossy, Utf8.lossyFrom_flatMap, hbroken, hback]

end AssetBake.Job
