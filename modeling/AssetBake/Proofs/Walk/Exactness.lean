import AssetBake.Proofs.FileTree.Following
import AssetBake.Proofs.Job.Collecting
import AssetBake.Proofs.Walk.Order
import AssetBake.Proofs.Walk.Sights

/-!
# Exact walks

A walk that does not go through links finds just the files, and links to files, that real directories
lead to and that no line leaves out, each once and in the order of the bytes of the relative paths. It
fails only for a directory whose path is too long, or for a link that leads nowhere.
-/

namespace AssetBake

namespace Walk

variable {t t' : FileTree} {rules : Rules} {chain above : List Stop} {here : Stop} {n : Name}
  {place : Location} {way rest : List Name} {met : Option Failure}

/-! ### What there is to find -/

/-- None of the directories that some names lead through is left out. -/
def Rules.Open (rules : Rules) (way : List Name) : Prop :=
  ∀ front, front ≠ [] → front <+: way → front ≠ way → rules.Admits front true

/-- Real directories below a place that are not left out lead to a file, or to a link to a file, which
is not left out itself. -/
structure Rules.Finds (rules : Rules) (t : FileTree) (place : Location) (way : List Name) : Prop where
  isOpen : rules.Open way
  admitted : rules.Admits way false
  entry : (∃ mode content, t.find? (way.reverse ++ place) = some (.file mode content)) ∨
    (∃ target, t.find? (way.reverse ++ place) = some (.link target)) ∧
      t.isFileAt rules.cwd (rules.fullPath way) = true

/-- Real directories below a place that are not left out lead to what stops the walk: a link that does
not resolve, or a directory whose path the system does not take. -/
inductive Rules.Blocks (rules : Rules) (t : FileTree) (place : Location) (way : List Name) : Prop
  | link {target : Path} {fault : PathFault} (isOpen : rules.Open way)
      (admitted : rules.Admits way false)
      (hentry : t.find? (way.reverse ++ place) = some (.link target))
      (hfault : t.resolve rules.cwd (rules.fullPath way) = .error fault)
  | directory {mode : Nat} {fault : PathFault} (hne : way ≠ []) (isOpen : rules.Open way)
      (admitted : rules.Admits way true)
      (hentry : t.find? (way.reverse ++ place) = some (.directory mode))
      (hfault : FileTree.checkPath (rules.fullPath way) = .error fault)

theorem Rules.Open.singleton (n : Name) : rules.Open [n] := by
  intro front hfront hle hproper
  rcases List.prefix_concat_iff.1 (show front <+: [] ++ [n] from hle) with heq | hempty
  · exact absurd heq hproper
  · exact absurd (List.prefix_nil.1 hempty) hfront

theorem Rules.Open.append_singleton (h : rules.Open way) (hne : way ≠ [] → rules.Admits way true)
    (n : Name) : rules.Open (way ++ [n]) := by
  intro front hfront hle hproper
  have hway : front <+: way := (List.prefix_concat_iff.1 hle).resolve_left hproper
  by_cases hsame : front = way
  · subst hsame
    exact hne hfront
  · exact h front hfront hway hsame

/-! ### What the walk sees -/

/-- A walk sees a file where one is or a link leads to one. -/
theorem sight_eq_file_iff : sight t rules chain here n = .ok .file ↔
    rules.Admits (here.way ++ [n]) false ∧
      ((∃ mode content, t.find? (n :: here.place) = some (.file mode content)) ∨
        (∃ target, t.find? (n :: here.place) = some (.link target)) ∧
          t.isFileAt rules.cwd (rules.fullPath (here.way ++ [n])) = true) := by
  constructor
  · intro h
    cases sees_of_sight h with
    | file hentry hadmits => exact ⟨hadmits, .inl ⟨_, _, hentry⟩⟩
    | linkedFile hentry hresolve hdir hadmits =>
      exact ⟨hadmits, .inr ⟨⟨_, hentry⟩, FileTree.isFileAt_iff.2 ⟨_, hresolve, hdir⟩⟩⟩
  · rintro ⟨hadmits, ⟨mode, content, hfile⟩ | ⟨⟨target, hlink⟩, hisFile⟩⟩
    · rw [sight_of_file hfile, if_pos hadmits]
    · obtain ⟨next, hresolve, hdir⟩ := FileTree.isFileAt_iff.1 hisFile
      rw [sight_of_link_to_file hlink hresolve hdir, if_pos hadmits]

/-- A walk that does not go through links enters real directories. -/
theorem sight_eq_directory_iff (hfollow : rules.followLinks = false) {next : Location} :
    sight t rules chain here n = .ok (.directory next) ↔ n :: here.place = next ∧
      rules.Admits (here.way ++ [n]) true ∧
      (∃ mode, t.find? (n :: here.place) = some (.directory mode)) ∧
      FileTree.checkPath (rules.fullPath (here.way ++ [n])) = .ok () := by
  constructor
  · intro h
    cases sees_of_sight h with
    | directory hentry hopens hadmits => exact ⟨rfl, hadmits, ⟨_, hentry⟩, hopens⟩
    | linkedDirectory hfollowed => simp [hfollow] at hfollowed
  · rintro ⟨rfl, hadmits, ⟨mode, hmode⟩, hopens⟩
    rw [sight_of_directory hmode hopens, if_pos hadmits]

/-- It is stopped by a link that does not resolve or a directory that it cannot open. -/
theorem exists_sight_eq_error_iff (hfollow : rules.followLinks = false) :
    (∃ failure, sight t rules chain here n = .error failure) ↔
      (rules.Admits (here.way ++ [n]) false ∧
        (∃ target, t.find? (n :: here.place) = some (.link target)) ∧
        ∃ fault, t.resolve rules.cwd (rules.fullPath (here.way ++ [n])) = .error fault) ∨
      rules.Admits (here.way ++ [n]) true ∧
        (∃ mode, t.find? (n :: here.place) = some (.directory mode)) ∧
        ∃ fault, FileTree.checkPath (rules.fullPath (here.way ++ [n])) = .error fault := by
  constructor
  · rintro ⟨failure, h⟩
    cases sees_of_sight h with
    | unopened hentry hfault hadmits => exact .inr ⟨hadmits, ⟨_, hentry⟩, _, hfault⟩
    | loop hfollowed => simp [hfollow] at hfollowed
    | unresolved hfollowed => simp [hfollow] at hfollowed
    | dangling _ hentry hfault hadmits => exact .inl ⟨hadmits, ⟨_, hentry⟩, _, hfault⟩
  · rintro (⟨hadmits, ⟨target, hlink⟩, fault, hfault⟩ | ⟨hadmits, ⟨mode, hmode⟩, fault, hfault⟩)
    · exact ⟨_, by rw [sight_of_unresolved hlink hfault, hfollow, if_pos hadmits]; rfl⟩
    · exact ⟨_, by rw [sight_of_unopened hmode hfault, if_pos hadmits]⟩

/-! ### What the walk meets -/

theorem place_cons {front : List Name} (hplace : here.place = front.reverse ++ place) (n : Name) :
    n :: here.place = (front ++ [n]).reverse ++ place := by
  simp [hplace]

/-- What is met is there to be found, or blocks the walk. -/
theorem finds_or_blocks_of_meets (hfollow : rules.followLinks = false)
    (h : Meets t rules above here n way met) (hplace : here.place = here.way.reverse ++ place)
    (hopen : rules.Open (here.way ++ [n])) :
    met = none ∧ rules.Finds t place way ∨ met ≠ none ∧ rules.Blocks t place way := by
  induction h with
  | file h =>
    obtain ⟨hadmits, hentry⟩ := sight_eq_file_iff.1 h
    rw [place_cons hplace] at hentry
    exact .inl ⟨rfl, hopen, hadmits, hentry⟩
  | stuck h =>
    have hstuck := (exists_sight_eq_error_iff hfollow).1 ⟨_, h⟩
    rw [place_cons hplace] at hstuck
    refine .inr ⟨by simp, ?_⟩
    rcases hstuck with ⟨hadmits, ⟨_, hlink⟩, _, hfault⟩ | ⟨hadmits, ⟨_, hmode⟩, _, hfault⟩
    · exact .link hopen hadmits hlink hfault
    · exact .directory (by simp) hopen hadmits hmode hfault
  | inside h _ ih =>
    obtain ⟨rfl, hadmits, _⟩ := (sight_eq_directory_iff hfollow).1 h
    exact ih (place_cons hplace _) (hopen.append_singleton (fun _ => hadmits) _)

/-- Where nothing stops the walk, it comes to every entry that open directories lead to. -/
theorem exists_meets_of_open (hfollow : rules.followLinks = false)
    (hclear : ∀ way failure, ¬Meets t rules above here n way (some failure))
    (hplace : here.place = here.way.reverse ++ place) (hopen : rules.Open (here.way ++ n :: rest))
    {e : Entry} (hentry : t.find? ((here.way ++ n :: rest).reverse ++ place) = some e) :
    ∃ above' here' m, here.way ++ n :: rest = here'.way ++ [m] ∧
      here'.place = here'.way.reverse ++ place ∧
      ∀ way met, Meets t rules above' here' m way met → Meets t rules above here n way met := by
  induction rest generalizing above here n with
  | nil => exact ⟨above, here, n, rfl, hplace, fun _ _ h => h⟩
  | cons m rest ih =>
    have hcons : here.way ++ n :: m :: rest = (here.way ++ [n]) ++ m :: rest := by simp
    have hadmits : rules.Admits (here.way ++ [n]) true :=
      hopen _ (by simp) (hcons ▸ List.prefix_append _ _) (by simp)
    have hsplit : (here.way ++ n :: m :: rest).reverse ++ place =
        (m :: rest).reverse ++ n :: here.place := by
      simp [hplace]
    have hmode := (t.isDirectory_iff _).1
      (FileTree.isDirectory_of_append (by simp) (hsplit ▸ hentry))
    rcases Except.ok_or_error (FileTree.checkPath (rules.fullPath (here.way ++ [n]))) with
      ⟨_, hcheck⟩ | hfault
    · have hsight : sight t rules (here :: above) here n = .ok (.directory (n :: here.place)) :=
        (sight_eq_directory_iff hfollow).2 ⟨rfl, hadmits, hmode, hcheck⟩
      obtain ⟨above', here', k, hway, hplace', hmeets⟩ :=
        @ih (here :: above) ⟨n :: here.place, here.way ++ [n]⟩ m
          (fun way failure h => hclear way failure (.inside hsight h)) (place_cons hplace n)
          (hcons ▸ hopen) (hcons ▸ hentry)
      exact ⟨above', here', k, hcons.trans hway, hplace',
        fun way met h => .inside hsight (hmeets way met h)⟩
    · obtain ⟨failure, hsight⟩ : ∃ failure, sight t rules (here :: above) here n = .error failure :=
        (exists_sight_eq_error_iff hfollow).2 (.inr ⟨hadmits, hmode, hfault⟩)
      exact absurd (.stuck hsight) (hclear _ failure)

/-- Where nothing stops the walk of a whole directory, it comes to every entry that open directories
lead to. -/
theorem exists_meets_of_clear (hfollow : rules.followLinks = false)
    (hclear : ∀ n way failure, ¬Meets t rules [] ⟨place, []⟩ n way (some failure))
    (hne : way ≠ []) (hopen : rules.Open way) {e : Entry}
    (hentry : t.find? (way.reverse ++ place) = some e) :
    ∃ above here m, way = here.way ++ [m] ∧ m :: here.place = way.reverse ++ place ∧
      ∀ way' met, Meets t rules above here m way' met →
        ∃ n, Meets t rules [] ⟨place, []⟩ n way' met := by
  obtain ⟨n, rest, rfl⟩ := List.exists_cons_of_ne_nil hne
  obtain ⟨above, here, m, hway, hplace, hmeets⟩ :=
    @exists_meets_of_open t rules [] ⟨place, []⟩ n place rest hfollow (hclear n) rfl hopen e hentry
  have hway : n :: rest = here.way ++ [m] := hway
  exact ⟨above, here, m, hway, by rw [hway, place_cons hplace],
    fun way' met h => ⟨n, hmeets way' met h⟩⟩

/-! ### The whole walk -/

/-- The names of all that lies below a place are texts. -/
def TextsBelow (t : FileTree) (place : Location) : Prop :=
  ∀ way e, t.find? (way.reverse ++ place) = some e → AreTexts way

/-- Just the files that are there to be found, in the order of the bytes of their relative paths, which
are the texts of their normal forms. -/
structure Exact (rules : Rules) (t : FileTree) (place : Location) (sources : List Source) : Prop where
  mem_iff : ∀ s, s ∈ sources ↔ ∃ way, rules.Finds t place way ∧ s = rules.source way
  increasing : sources.Pairwise Before
  full : ∀ s ∈ sources, s.full = rules.root.join s.relative
  plain : ∀ s ∈ sources, ∃ way, way ≠ [] ∧ s.relative.components = way.map .name
  normal : ∀ s ∈ sources, ∃ text : String, s.relative.normalize = .ok text.toList ∧
    Text.Utf8.encode text = s.relative.bytes

theorem Rules.Finds.ne_nil (h : rules.Finds t place way) (hdir : t.isDirectory place = true) :
    way ≠ [] := by
  rintro rfl
  obtain ⟨mode, hmode⟩ := (t.isDirectory_iff _).1 hdir
  have hentry := h.entry
  simp [hmode] at hentry

theorem Rules.Finds.exists_entry (h : rules.Finds t place way) :
    ∃ e, t.find? (way.reverse ++ place) = some e := by
  rcases h.entry with ⟨mode, content, hfile⟩ | ⟨⟨target, hlink⟩, _⟩
  · exact ⟨_, hfile⟩
  · exact ⟨_, hlink⟩

theorem Rules.Finds.of_view (hview : ∀ place, t'.find? place = t.find? place)
    (h : rules.Finds t place way) : rules.Finds t' place way where
  isOpen := h.isOpen
  admitted := h.admitted
  entry := by
    rw [hview, FileTree.isFileAt_of_view hview]
    exact h.entry

theorem Rules.Blocks.of_view (hview : ∀ place, t'.find? place = t.find? place)
    (h : rules.Blocks t place way) : rules.Blocks t' place way := by
  cases h with
  | link hopen hadmits hlink hfault =>
    rcases Except.ok_or_error (t'.resolve rules.cwd (rules.fullPath way)) with ⟨at', hok⟩ | ⟨_, hfault'⟩
    · cases hfault.symm.trans ((FileTree.resolve_eq_ok_of_view hview).1 hok)
    · exact .link hopen hadmits ((hview _).trans hlink) hfault'
  | directory hne hopen hadmits hmode hfault =>
    exact .directory hne hopen hadmits ((hview _).trans hmode) hfault

variable {sources : List Source} {ways : List (List Name)}

theorem Walked.mem_ways_iff_finds (h : Walked t rules place sources ways)
    (hfollow : rules.followLinks = false) (hdir : t.isDirectory place = true) :
    way ∈ ways ↔ rules.Finds t place way := by
  rw [h.mem_ways_iff]
  constructor
  · rintro ⟨n, hn⟩
    obtain ⟨_, hfinds⟩ | ⟨hmet, _⟩ := finds_or_blocks_of_meets hfollow hn rfl (.singleton n)
    · exact hfinds
    · exact absurd rfl hmet
  · intro hfinds
    obtain ⟨e, he⟩ := hfinds.exists_entry
    obtain ⟨above, here, m, rfl, hplace, hmeets⟩ :=
      exists_meets_of_clear hfollow h.not_meets (hfinds.ne_nil hdir) hfinds.isOpen he
    refine hmeets _ none (.file ?_)
    refine sight_eq_file_iff.2 ⟨hfinds.admitted, ?_⟩
    rw [hplace]
    exact hfinds.entry

theorem Walked.exact (h : Walked t rules place sources ways) (hfollow : rules.followLinks = false)
    (hdir : t.isDirectory place = true) (htexts : TextsBelow t place) :
    Exact rules t place sources := by
  have hways : ∀ s, s ∈ sources ↔ ∃ way, rules.Finds t place way ∧ s = rules.source way := by
    intro s
    rw [h.mem_iff]
    exact exists_congr fun way => and_congr_left fun _ => h.mem_ways_iff_finds hfollow hdir
  have htext : ∀ {way}, rules.Finds t place way → AreTexts way := by
    intro way hfinds
    obtain ⟨e, he⟩ := hfinds.exists_entry
    exact htexts way e he
  refine ⟨hways, ?_, fun s hs => ?_, fun s hs => ?_, fun s hs => ?_⟩
  · exact h.before fun way hway => htext ((h.mem_ways_iff_finds hfollow hdir).1 hway)
  · obtain ⟨way, _, rfl⟩ := (hways s).1 hs
    rfl
  · obtain ⟨way, hfinds, rfl⟩ := (hways s).1 hs
    exact ⟨way, hfinds.ne_nil hdir, Path.components_ofNames way⟩
  · obtain ⟨way, hfinds, rfl⟩ := (hways s).1 hs
    exact ⟨_, Path.normalize_ofNames (hfinds.ne_nil hdir) (htext hfinds),
      Path.encode_componentText_ofNames (htext hfinds)⟩

theorem not_blocks_of_clear (hfollow : rules.followLinks = false) (hdir : t.isDirectory place = true)
    (hclear : ∀ n way failure, ¬Meets t rules [] ⟨place, []⟩ n way (some failure))
    (way : List Name) : ¬rules.Blocks t place way := by
  -- Whatever blocks the walk would be met, since the way to it is open.
  have hstuck : ∀ {above : List Stop} {here : Stop} {m : Name},
      (∃ failure, sight t rules (here :: above) here m = .error failure) →
      (∀ way' met, Meets t rules above here m way' met →
        ∃ n, Meets t rules [] ⟨place, []⟩ n way' met) → False := by
    rintro above here m ⟨failure, hsight⟩ hmeets
    obtain ⟨n, hmet⟩ := hmeets _ _ (.stuck hsight)
    exact hclear n _ failure hmet
  intro hblocks
  cases hblocks with
  | link hopen hadmits hlink hfault =>
    have hne : way ≠ [] := by
      rintro rfl
      obtain ⟨mode, hmode⟩ := (t.isDirectory_iff _).1 hdir
      cases hmode.symm.trans hlink
    obtain ⟨above, here, m, rfl, hplace, hmeets⟩ := exists_meets_of_clear hfollow hclear hne hopen hlink
    rw [← hplace] at hlink
    exact hstuck ((exists_sight_eq_error_iff hfollow).2 (.inl ⟨hadmits, ⟨_, hlink⟩, _, hfault⟩)) hmeets
  | directory hne hopen hadmits hmode hfault =>
    obtain ⟨above, here, m, rfl, hplace, hmeets⟩ := exists_meets_of_clear hfollow hclear hne hopen hmode
    rw [← hplace] at hmode
    exact hstuck ((exists_sight_eq_error_iff hfollow).2 (.inr ⟨hadmits, ⟨_, hmode⟩, _, hfault⟩)) hmeets

variable {cwd : Location} {root : Path} {lines : List (List Char)} {list : ExcludeList}

theorem exists_walk_iff (hroot : t.resolve cwd root = .ok place) (hdir : t.isDirectory place = true)
    (hlist : ExcludeList.ofLines root lines = .ok list) (hinput : isStandardInput root = false) :
    (∃ sources, (t.walk cwd root lines false).result = .ok sources) ↔
      ∀ way, ¬Rules.Blocks ⟨cwd, root, list, false⟩ t place way := by
  constructor
  · rintro ⟨sources, hwalk⟩ way
    obtain ⟨ways, hwalked⟩ := exists_walked hroot hdir hlist hinput hwalk
    exact not_blocks_of_clear rfl hdir hwalked.not_meets way
  · intro hclear
    rcases Except.ok_or_error (t.walk cwd root lines false).result with hok | ⟨failure, hfailure⟩
    · exact hok
    · obtain ⟨n, way, hmeets⟩ := exists_meets_of_walk hroot hdir hlist hinput hfailure
      obtain ⟨hmet, _⟩ | ⟨_, hblocks⟩ := finds_or_blocks_of_meets rfl hmeets rfl (.singleton n)
      · cases hmet
      · exact absurd hblocks (hclear way)

theorem exact_of_walk (hroot : t.resolve cwd root = .ok place) (hdir : t.isDirectory place = true)
    (hlist : ExcludeList.ofLines root lines = .ok list) (hinput : isStandardInput root = false)
    (htexts : TextsBelow t place) (hwalk : (t.walk cwd root lines false).result = .ok sources) :
    Exact ⟨cwd, root, list, false⟩ t place sources := by
  obtain ⟨ways, hwalked⟩ := exists_walked hroot hdir hlist hinput hwalk
  exact hwalked.exact rfl hdir htexts

theorem walk_of_view (hview : ∀ place, t'.find? place = t.find? place)
    (hroot : t.resolve cwd root = .ok place) (hdir : t.isDirectory place = true)
    (hlist : ExcludeList.ofLines root lines = .ok list) (hinput : isStandardInput root = false)
    (htexts : TextsBelow t place) (hwalk : (t.walk cwd root lines false).result = .ok sources) :
    (t'.walk cwd root lines false).result = .ok sources := by
  have hroot' := (FileTree.resolve_eq_ok_of_view hview).2 hroot
  have hdir' := (FileTree.isDirectory_of_view hview place).trans hdir
  have hback : ∀ place, t.find? place = t'.find? place := fun place => (hview place).symm
  obtain ⟨sources', hwalk'⟩ := (exists_walk_iff hroot' hdir' hlist hinput).2 fun way hblocks =>
    (exists_walk_iff hroot hdir hlist hinput).1 ⟨sources, hwalk⟩ way (hblocks.of_view hback)
  have htexts' : TextsBelow t' place := fun way e he => htexts way e (hback _ ▸ he)
  have hexact := exact_of_walk hroot hdir hlist hinput htexts hwalk
  have hexact' := exact_of_walk hroot' hdir' hlist hinput htexts' hwalk'
  rw [hwalk', hexact.increasing.eq_of_mem_iff hexact'.increasing fun s => ?_]
  rw [hexact.mem_iff, hexact'.mem_iff]
  exact exists_congr fun way => and_congr_left fun _ => ⟨.of_view hview, .of_view hback⟩

/-- A walk that does not go through links succeeds just if nothing blocks it; it finds just what is
there to be found then, in byte order, and a tree with the same view gives the same list. -/
theorem walk_exact (hroot : t.resolve cwd root = .ok place) (hdir : t.isDirectory place = true)
    (hlist : ExcludeList.ofLines root lines = .ok list) (hinput : isStandardInput root = false)
    (htexts : TextsBelow t place) :
    ((∃ sources, (t.walk cwd root lines false).result = .ok sources) ↔
      ∀ way, ¬Rules.Blocks ⟨cwd, root, list, false⟩ t place way) ∧
    (∀ sources, (t.walk cwd root lines false).result = .ok sources →
      Exact ⟨cwd, root, list, false⟩ t place sources) ∧
    ∀ t' : FileTree, (∀ place, t'.find? place = t.find? place) →
      ∀ sources, (t'.walk cwd root lines false).result = .ok sources ↔
        (t.walk cwd root lines false).result = .ok sources := by
  refine ⟨exists_walk_iff hroot hdir hlist hinput,
    fun sources => exact_of_walk hroot hdir hlist hinput htexts, fun t' hview sources => ⟨?_, ?_⟩⟩
  · have hback : ∀ place, t.find? place = t'.find? place := fun place => (hview place).symm
    exact walk_of_view hback ((FileTree.resolve_eq_ok_of_view hview).2 hroot)
      ((FileTree.isDirectory_of_view hview place).trans hdir) hlist hinput
      fun way e he => htexts way e (hback _ ▸ he)
  · exact walk_of_view hview hroot hdir hlist hinput htexts

/-! ### One tree -/

theorem textsBelow_of_entries
    (h : ∀ e ∈ t.entries, ∀ n ∈ e.1, (Text.Utf8.decode? n.bytes).isSome = true) (place : Location) :
    TextsBelow t place := by
  intro way e he n hn
  have hne : way.reverse ++ place ≠ [] :=
    List.append_ne_nil_of_left_ne_nil (by simpa using List.ne_nil_of_mem hn) _
  refine Option.isSome_iff_exists.1 (h _ ((t.find?_eq_some_iff hne).1 he) n ?_)
  exact List.mem_append_left _ (List.mem_reverse.2 hn)

def nameA : Name := ⟨[0x61], by decide⟩

/-- The name `a.x`. -/
def nameAX : Name := ⟨[0x61, 0x2e, 0x78], by decide⟩

def nameS : Name := ⟨[0x73], by decide⟩

/-- The directory `d` with a file `s`, a link `a.x` to it, and the file `f` in a directory `a`. -/
def mixedTree : FileTree where
  entries :=
    [([Job.nameD], .directory 0o755), ([nameA, Job.nameD], .directory 0o755),
      ([Job.nameF, nameA, Job.nameD], .file 0o644 []), ([nameS, Job.nameD], .file 0o644 []),
      ([nameAX, Job.nameD], .link (.ofString "s"))]
  distinct := by decide
  rooted := by simp

/-- By their bytes `a.x` goes before `a/f`. The file `s` is left out, but not the link to it. -/
theorem walk_mixedTree : ∃ list,
    ExcludeList.ofLines (.ofString "d") ["s".toList] = .ok list ∧
    mixedTree.resolve [] (.ofString "d") = .ok [Job.nameD] ∧
    mixedTree.isDirectory [Job.nameD] = true ∧ TextsBelow mixedTree [Job.nameD] ∧
    Exact ⟨[], .ofString "d", list, false⟩ mixedTree [Job.nameD]
      [⟨.ofString "d/a.x", .ofString "a.x"⟩, ⟨.ofString "d/a/f", .ofString "a/f"⟩] := by
  obtain ⟨list, hlist, hvisit⟩ : ∃ list,
      ExcludeList.ofLines (.ofString "d") ["s".toList] = .ok list ∧
      (visit mixedTree ⟨[], .ofString "d", list, false⟩ [] ⟨[Job.nameD], []⟩
        (mixedTree.names [Job.nameD])).result =
        .ok [⟨.ofString "d/a/f", .ofString "a/f"⟩, ⟨.ofString "d/a.x", .ofString "a.x"⟩] :=
    ⟨_, by cbv, by cbv⟩
  have hroot : mixedTree.resolve [] (.ofString "d") = .ok [Job.nameD] := by cbv
  have hdir : mixedTree.isDirectory [Job.nameD] = true := by cbv
  have hinput : isStandardInput (.ofString "d") = false := by cbv
  have htexts : TextsBelow mixedTree [Job.nameD] := textsBelow_of_entries (by decide) _
  have hafter : inOrder ⟨.ofString "d/a/f", .ofString "a/f"⟩ ⟨.ofString "d/a.x", .ofString "a.x"⟩ =
      false := by decide
  have hwalk : (mixedTree.walk [] (.ofString "d") ["s".toList] false).result =
      .ok [⟨.ofString "d/a.x", .ofString "a.x"⟩, ⟨.ofString "d/a/f", .ofString "a/f"⟩] := by
    rw [result_walk hroot hdir hlist hinput, hvisit]
    simp [Except.map, List.mergeSort, List.MergeSort.Internal.splitInTwo, hafter]
  exact ⟨list, hlist, hroot, hdir, htexts, (walk_exact hroot hdir hlist hinput htexts).2.1 _ hwalk⟩

/-! ### A directory with too long a path -/

/-- A directory `d` with a file `f` and a directory `e`, and no link. -/
def branchingTree : FileTree :=
  Job.smallTree.put [Job.nameE, Job.nameD] (.directory 0o755)

theorem find?_branchingTree (q : Location) : branchingTree.find? q =
    if q = [Job.nameE, Job.nameD] then some (.directory 0o755) else Job.smallTree.find? q :=
  FileTree.find?_put (by decide) _ q

theorem not_link_branchingTree (q : Location) (target : Path) :
    branchingTree.find? q ≠ some (.link target) := by
  have hsmall : Job.smallTree.find? q ≠ some (.link target) :=
    FileTree.not_link_of_entries (by simp [Job.smallTree]) q target
  rw [find?_branchingTree]
  split
  · simp
  · exact hsmall

/-- A walk that comes to a directory with too long a path first does not get further. -/
theorem walk_slashed_of_overlong {count mode : Nat} {rest : List Name} {followLinks : Bool}
    (hcount : count < 4094)
    (hroot : t.resolveFrom [] [.name Job.nameD, .current] = .ok [Job.nameD])
    (hnames : t.names [Job.nameD] = n :: rest)
    (hentry : t.find? [n, Job.nameD] = some (.directory mode))
    (hcheck : FileTree.checkPath ⟨(Job.slashed (count + 1)).bytes ++ n.bytes⟩ = .error .nameTooLong) :
    (t.walk [] (Job.slashed (count + 1)) [] followLinks).result =
      .error (openFailure ⟨(Job.slashed (count + 1)).bytes ++ n.bytes⟩ .nameTooLong) := by
  have hlist : ExcludeList.ofLines (Job.slashed (count + 1)) [] =
      .ok ⟨⟨dropLeadingCurrent (Job.slashed (count + 1)).bytes⟩, []⟩ := rfl
  rw [result_walk ((Job.resolve_eq_of_slashed t hcount).trans hroot)
    (FileTree.isDirectory_of_find? hentry) hlist (Job.isStandardInput_slashed _), hnames,
    result_visit_cons, visitName, sight, hentry]
  simp [Rules.Admits, ExcludeList.verdict, Rules.fullPath, Rules.source, Job.join_slashed, hcheck]
  rfl

theorem resolve_branchingTree : branchingTree.resolve [] (Job.slashed 4094) = .ok [Job.nameD] := by
  have hroot : branchingTree.resolveFrom [] [.name Job.nameD, .current] = .ok [Job.nameD] := by cbv
  rw [Job.resolve_eq_of_slashed _ (by decide), hroot]

/-- The directory `e` has a path of 4096 bytes, which the system does not take. -/
theorem walk_branchingTree (followLinks : Bool) :
    (branchingTree.walk [] (Job.slashed 4094) [] followLinks).result =
      .error (openFailure ⟨(Job.slashed 4094).bytes ++ Job.nameE.bytes⟩ .nameTooLong) := by
  have hroot : branchingTree.resolveFrom [] [.name Job.nameD, .current] = .ok [Job.nameD] := by cbv
  have hnames : branchingTree.names [Job.nameD] = [Job.nameE, Job.nameF] := by cbv
  have hentry : branchingTree.find? [Job.nameE, Job.nameD] = some (.directory 0o755) := by
    rw [find?_branchingTree, if_pos rfl]
  have hcheck : FileTree.checkPath ⟨(Job.slashed 4094).bytes ++ Job.nameE.bytes⟩ =
      .error .nameTooLong := Job.checkPath_slashed (by decide)
  exact walk_slashed_of_overlong (by decide) hroot hnames hentry hcheck

/-- No link is there, and yet the walk fails. -/
theorem walk_overlong :
    branchingTree.resolve [] (Job.slashed 4094) = .ok [Job.nameD] ∧
    branchingTree.isDirectory [Job.nameD] = true ∧ TextsBelow branchingTree [Job.nameD] ∧
    (∀ q target, branchingTree.find? q ≠ some (.link target)) ∧
    (branchingTree.walk [] (Job.slashed 4094) [] false).result =
      .error (openFailure ⟨(Job.slashed 4094).bytes ++ Job.nameE.bytes⟩ .nameTooLong) := by
  have hdir : branchingTree.isDirectory [Job.nameD] = true := by cbv
  exact ⟨resolve_branchingTree, hdir, textsBelow_of_entries (by decide) _, not_link_branchingTree,
    walk_branchingTree false⟩

end Walk

end AssetBake
