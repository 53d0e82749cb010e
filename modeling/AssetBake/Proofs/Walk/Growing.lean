import AssetBake.Proofs.FileTree.ReadingBack
import AssetBake.Proofs.Walk.Order
import AssetBake.Proofs.Walk.Sights

/-!
# Walks of a tree that has been written to

New directories and a new file change a walk only by that file, or by a new directory that cannot be
opened. Whatever else the walk meets it met before, at the same place.
-/

namespace AssetBake.Walk

open FileTree

variable {t t' : FileTree} {rules : Rules} {chain above : List Stop} {here : Stop} {n : Name}
  {target place : Location} {way : List Name} {met : Option Failure}

/-! ### Where the ways of a walk lead -/

/-- Some names lead from the root of a walk to a place: into directories as they are, and through links,
which the system resolves by the whole path. -/
inductive Reaches (t : FileTree) (cwd : Location) (root : Path) : List Name → Location → Prop
  | root {place : Location} (h : t.resolve cwd root = .ok place) : Reaches t cwd root [] place
  | entry {way : List Name} {at' : Location} {n : Name} {e : Entry} (h : Reaches t cwd root way at')
      (hentry : t.find? (n :: at') = some e) (hlink : ∀ target, e ≠ .link target) :
      Reaches t cwd root (way ++ [n]) (n :: at')
  | link {way : List Name} {at' next : Location} {n : Name} {target : Path}
      (h : Reaches t cwd root way at') (hlink : t.find? (n :: at') = some (.link target))
      (hresolve : t.resolve cwd (root.join (.ofNames (way ++ [n]))) = .ok next) :
      Reaches t cwd root (way ++ [n]) next

theorem fullPath_append_singleton (rules : Rules) (way : List Name) (n : Name) :
    rules.fullPath (way ++ [n]) = rules.root.join (.ofNames (way ++ [n])) := by
  simp [Rules.fullPath, Rules.source]

theorem find?_of_sight_directory (h : sight t rules chain here n = .ok (.directory place)) :
    (∃ mode, t.find? (n :: here.place) = some (.directory mode)) ∧ place = n :: here.place ∨
    (∃ target, t.find? (n :: here.place) = some (.link target)) ∧
      t.resolve rules.cwd (rules.fullPath (here.way ++ [n])) = .ok place := by
  cases sees_of_sight h with
  | directory hentry => exact .inl ⟨⟨_, hentry⟩, rfl⟩
  | linkedDirectory _ hentry hresolve => exact .inr ⟨⟨_, hentry⟩, hresolve⟩

theorem find?_of_sight_file (h : sight t rules chain here n = .ok .file) :
    (∃ mode content, t.find? (n :: here.place) = some (.file mode content)) ∨
    (∃ target, t.find? (n :: here.place) = some (.link target)) ∧
      ∃ place, t.resolve rules.cwd (rules.fullPath (here.way ++ [n])) = .ok place := by
  cases sees_of_sight h with
  | file hentry => exact .inl ⟨_, _, hentry⟩
  | linkedFile hentry hresolve => exact .inr ⟨⟨_, hentry⟩, _, hresolve⟩

/-- The walk goes where the names lead. -/
theorem Reaches.of_sight_directory (hreach : Reaches t rules.cwd rules.root here.way here.place)
    (h : sight t rules chain here n = .ok (.directory place)) :
    Reaches t rules.cwd rules.root (here.way ++ [n]) place := by
  rcases find?_of_sight_directory h with ⟨⟨mode, hmode⟩, rfl⟩ | ⟨⟨target, hlink⟩, hresolve⟩
  · exact hreach.entry hmode (by simp)
  · rw [fullPath_append_singleton] at hresolve
    exact hreach.link hlink hresolve

theorem Reaches.of_sight_file (hreach : Reaches t rules.cwd rules.root here.way here.place)
    (h : sight t rules chain here n = .ok .file) :
    ∃ place, Reaches t rules.cwd rules.root (here.way ++ [n]) place := by
  rcases find?_of_sight_file h with ⟨mode, content, hfile⟩ | ⟨⟨target, hlink⟩, place, hresolve⟩
  · exact ⟨_, hreach.entry hfile (by simp)⟩
  · rw [fullPath_append_singleton] at hresolve
    exact ⟨place, hreach.link hlink hresolve⟩

theorem Meets.exists_reaches (h : Meets t rules above here n way none)
    (hreach : Reaches t rules.cwd rules.root here.way here.place) :
    ∃ place, Reaches t rules.cwd rules.root way place := by
  generalize hmet : (none : Option Failure) = met at h
  induction h with
  | file h => exact hreach.of_sight_file h
  | stuck => cases hmet
  | inside h _ ih => exact ih (hreach.of_sight_directory h) hmet

/-- A slash at the end of a path only asks for a directory. -/
theorem leads_bareSteps {cwd : Location} {root : Path} (h : t.resolve cwd root = .ok place) :
    Leads t true maxLinks (startOf cwd root) root.bareSteps (.present place) := by
  obtain ⟨_, hleads⟩ := resolve_eq_ok_iff.1 h
  rw [Path.steps] at hleads
  split at hleads
  · obtain ⟨_, at', _, hfront, hlast⟩ := hleads.split (by simp)
    cases hlast with
    | stay _ _ hrest =>
      cases hrest
      exact hfront
  · simpa using hleads

/-- The system comes from the root of the walk to what a path below it leads to. -/
theorem exists_leads_of_resolve {cwd : Location} {root : Path} (hne : way ≠ [])
    (hroot : t.resolve cwd root = .ok place) {found : Location}
    (h : t.resolve cwd (root.join (.ofNames way)) = .ok found) :
    ∃ links, links ≤ maxLinks ∧ Leads t true links place (way.map .name) (.present found) := by
  obtain ⟨_, hsteps⟩ := resolve_eq_ok_iff.1 h
  rw [Path.steps_join_ofNames root hne, startOf, Path.isAbsolute_join_ofNames, ← startOf] at hsteps
  obtain ⟨links, mid, hle, hmid, hbelow⟩ := hsteps.split (by simpa using hne)
  cases hmid.eq (leads_bareSteps hroot)
  exact ⟨links, hle, hbelow⟩

/-- The walk is where the system comes to by the same names. -/
theorem Reaches.eq_of_leads {cwd : Location} {root : Path} {found : Location}
    (h : Reaches t cwd root way place) {start : Location} (hroot : t.resolve cwd root = .ok start)
    {links : Nat} (hle : links ≤ maxLinks)
    (hleads : Leads t true links start (way.map .name) (.present found)) : place = found := by
  induction h generalizing links found with
  | root hplace =>
    cases hplace.symm.trans hroot
    cases hleads
    rfl
  | entry _ hentry hlink ih =>
    rw [List.map_append] at hleads
    obtain ⟨links', mid, _, hfront, hlast⟩ := hleads.split (by simp)
    obtain rfl := ih hle hfront
    cases hlast with
    | stay hstep => simp at hstep
    | enter _ _ _ _ hrest =>
      cases hrest
      rfl
    | lastLink _ _ _ hlast => cases hlast
    | link _ _ hother => exact absurd (Option.some.inj (hentry.symm.trans hother)) (hlink _)
  | link _ _ hresolve _ =>
    obtain ⟨links', hle', hnext⟩ := exists_leads_of_resolve (by simp) hroot hresolve
    cases (hnext.mono hle').eq (hleads.mono hle)
    rfl

theorem Reaches.eq_of_resolve {cwd : Location} {root : Path} {found : Location}
    (h : Reaches t cwd root way place) {start : Location} (hroot : t.resolve cwd root = .ok start)
    (hne : way ≠ []) (hfound : t.resolve cwd (root.join (.ofNames way)) = .ok found) :
    place = found := by
  obtain ⟨links, hle, hleads⟩ := exists_leads_of_resolve hne hroot hfound
  exact h.eq_of_leads hroot hle hleads

/-! ### What the walk meets -/

/-- An entry that was there looks the same. -/
theorem sight_of_keeps (hkeeps : Keeps t t') {e : Entry} (hentry : t.find? (n :: here.place) = some e)
    {seen : Sight} (h : sight t rules chain here n = .ok seen) :
    sight t' rules chain here n = .ok seen := by
  cases e with
  | file mode content =>
    obtain ⟨mode', content', hnew⟩ : ∃ mode content,
        t'.find? (n :: here.place) = some (.file mode content) := by
      rcases hkeeps _ _ hentry with hsame | ⟨_, hnew⟩
      · exact ⟨_, _, hsame⟩
      · exact hnew
    simpa only [sight, hentry, hnew] using h
  | directory mode =>
    have hnew := hkeeps.find?_eq_some hentry rfl
    simpa only [sight, hentry, hnew] using h
  | link target =>
    have hnew := hkeeps.find?_eq_some hentry rfl
    simp only [sight, hentry, hnew] at h ⊢
    cases hresolve : t.resolve rules.cwd (rules.fullPath (here.way ++ [n])) with
    | ok next =>
      obtain ⟨e, he, _⟩ := exists_entry_of_resolve hresolve
      simp only [resolve_of_keeps hkeeps hresolve, hkeeps.isDirectory_eq he]
      simpa only [hresolve] using h
    | error fault =>
      -- Only a link that is left out may lead nowhere.
      rw [hresolve] at h
      split at h
      · cases h
      · split at h
        · cases h
        · next hfollow hadmits =>
          rw [if_neg hfollow, if_neg hadmits]
          exact h

theorem Meets.of_keeps (hkeeps : Keeps t t') (h : Meets t rules above here n way none) :
    Meets t' rules above here n way none := by
  generalize hmet : (none : Option Failure) = met at h ⊢
  induction h with
  | file h =>
    obtain ⟨e, he⟩ := exists_find?_of_sight h (by simp)
    exact .file (sight_of_keeps hkeeps he h)
  | stuck => cases hmet
  | inside h _ ih =>
    obtain ⟨e, he⟩ := exists_find?_of_sight h (by simp)
    exact .inside (sight_of_keeps hkeeps he h) (ih hmet)

/-- Only a link, or a directory whose path the system does not take, stops the walk. -/
theorem exists_fault_of_sight {e : Entry} (hentry : t.find? (n :: here.place) = some e)
    (hlink : ∀ target, e ≠ .link target) {failure : Failure}
    (h : sight t rules chain here n = .error failure) :
    ∃ path fault, failure = openFailure path fault ∧ checkPath path = .error fault := by
  have hother : ∀ target, t.find? (n :: here.place) ≠ some (.link target) := by
    intro target hfound
    exact hlink target (Option.some.inj (hentry.symm.trans hfound))
  cases sees_of_sight h with
  | unopened _ hfault => exact ⟨_, _, rfl, hfault⟩
  | loop _ hfound => exact absurd hfound (hother _)
  | unresolved _ hfound => exact absurd hfound (hother _)
  | dangling _ hfound => exact absurd hfound (hother _)

/-- Where nothing stopped the walk, what looks another way is new. -/
theorem sight_eq_or_new (hrenews : Renews t t' target)
    (hclear : ∀ failure, sight t rules chain here n ≠ .error failure) {e : Entry}
    (he : t'.find? (n :: here.place) = some e) :
    sight t' rules chain here n = sight t rules chain here n ∨
    t.find? (n :: here.place) = none ∧ (∀ target, e ≠ .link target) ∧
      (n :: here.place = target ∨ ∃ mode, e = .directory mode) := by
  cases hentry : t.find? (n :: here.place) with
  | some old =>
    rcases Except.ok_or_error (sight t rules chain here n) with ⟨seen, hseen⟩ | ⟨failure, hstuck⟩
    · rw [sight_of_keeps hrenews.keeps hentry hseen, hseen]
      exact .inl rfl
    · exact absurd hstuck (hclear failure)
  | none =>
    have hnew := hrenews.eq_or_directory hentry he
    refine .inr ⟨rfl, ?_, hnew⟩
    rcases hnew with rfl | ⟨mode, rfl⟩
    · obtain ⟨mode, content, hfile⟩ := hrenews.new
      cases he.symm.trans hfile
      simp
    · simp

/-- Where nothing stopped the walk it meets what it met, or the renewed file, or a new directory with a
path that the system does not take. -/
theorem Meets.of_renews (hrenews : Renews t t' target) (h : Meets t' rules above here n way met)
    (hclear : ∀ way failure, ¬Meets t rules above here n way (some failure))
    (hreach : Reaches t' rules.cwd rules.root here.way here.place) :
    Meets t rules above here n way met ∨
    met = none ∧ Reaches t' rules.cwd rules.root way target ∨
    ∃ path fault, met = some (openFailure path fault) ∧ checkPath path = .error fault := by
  induction h with
  | file h =>
    obtain ⟨e, he⟩ := exists_find?_of_sight h (by simp)
    rcases sight_eq_or_new hrenews (fun _ hstuck => hclear _ _ (.stuck hstuck)) he with
      hsame | ⟨_, hlink, rfl | ⟨mode, rfl⟩⟩
    · exact .inl (.file (hsame ▸ h))
    · exact .inr (.inl ⟨rfl, hreach.entry he hlink⟩)
    · rcases find?_of_sight_file h with ⟨_, _, hfile⟩ | ⟨⟨_, hfound⟩, _⟩
      · cases he.symm.trans hfile
      · cases he.symm.trans hfound
  | stuck h =>
    obtain ⟨e, he⟩ := exists_find?_of_sight h (by simp)
    rcases sight_eq_or_new hrenews (fun _ hstuck => hclear _ _ (.stuck hstuck)) he with
      hsame | ⟨_, hlink, _⟩
    · exact .inl (.stuck (hsame ▸ h))
    · obtain ⟨path, fault, rfl, hfault⟩ := exists_fault_of_sight he hlink h
      exact .inr (.inr ⟨path, fault, rfl, hfault⟩)
  | @inside above here n m next way met h _ ih =>
    obtain ⟨e, he⟩ := exists_find?_of_sight h (by simp)
    have hnext := hreach.of_sight_directory h
    rcases sight_eq_or_new hrenews (fun _ hstuck => hclear _ _ (.stuck hstuck)) he with
      hsame | ⟨hfree, hlink, _⟩
    · have hsight := hsame ▸ h
      exact (ih (fun way failure hmeets => hclear way failure (.inside hsight hmeets)) hnext).imp_left
        (.inside hsight)
    · -- Nothing was in a new directory.
      have hempty : ∀ way met, ¬Meets t rules (here :: above) ⟨next, here.way ++ [n]⟩ m way met := by
        intro way met hmeets
        obtain ⟨e', he'⟩ := hmeets.exists_find?
        rcases find?_of_sight_directory h with ⟨_, rfl⟩ | ⟨⟨_, hfound⟩, _⟩
        · cases (find?_eq_none_of_suffix hfree (List.suffix_cons m _)).symm.trans he'
        · exact hlink _ (Option.some.inj (he.symm.trans hfound))
      exact .inr ((ih (fun way failure => hempty way _) hnext).resolve_left (hempty _ _))

/-! ### The whole walk -/

variable {cwd : Location} {root : Path} {lines : List (List Char)} {followLinks : Bool}
  {sources : List Source}

/-- No file of the walk is the one at a place, be it itself or by a link. -/
def Misses (t : FileTree) (cwd : Location) (root : Path) (sources : List Source) (target : Location) :
    Prop :=
  ∀ way, ⟨root.join (.ofNames way), .ofNames way⟩ ∈ sources → ¬Reaches t cwd root way target

/-- A walk finds the same files again if none of them is the renewed one, unless it is stopped by a path
that the system does not take. -/
theorem walk_of_renews (hrenews : Renews t t' target)
    (hwalk : (t.walk cwd root lines followLinks).result = .ok sources)
    (htexts : ∀ way, ⟨root.join (.ofNames way), .ofNames way⟩ ∈ sources → AreTexts way)
    (hopens : ∀ path fault, checkPath path = .error fault →
      (t'.walk cwd root lines followLinks).result ≠ .error (openFailure path fault))
    (hmisses : ∀ sources', (t'.walk cwd root lines followLinks).result = .ok sources' →
      Misses t' cwd root sources' target) :
    (t'.walk cwd root lines followLinks).result = .ok sources := by
  obtain ⟨place, list, hroot, hdir, hlist⟩ := exists_of_walk hwalk
  have hroot' := resolve_of_keeps hrenews.keeps hroot
  have hdir' := hrenews.keeps.isDirectory hdir
  cases hinput : isStandardInput root with
  | true =>
    rw [result_walk_of_standardInput hroot hdir hlist hinput] at hwalk
    rw [result_walk_of_standardInput hroot' hdir' hlist hinput, hwalk]
  | false =>
    obtain ⟨ways, hwalked⟩ := exists_walked hroot hdir hlist hinput hwalk
    have hmet : ∀ {n way met}, Meets t' ⟨cwd, root, list, followLinks⟩ [] ⟨place, []⟩ n way met → _ :=
      fun hmeets => hmeets.of_renews hrenews (hwalked.not_meets _) (.root hroot')
    rcases Except.ok_or_error (t'.walk cwd root lines followLinks).result with
      ⟨sources', hwalk'⟩ | ⟨failure, hfailure⟩
    · obtain ⟨ways', hwalked'⟩ := exists_walked hroot' hdir' hlist hinput hwalk'
      rw [hwalk', hwalked.eq_of_ways hwalked' (fun way => ⟨fun hway => ?_, fun hway => ?_⟩)
        fun way hway => htexts way (hwalked.mem_iff.2 ⟨way, hway, rfl⟩)]
      · obtain ⟨n, hmeets⟩ := hwalked.mem_ways_iff.1 hway
        exact hwalked'.mem_ways_iff.2 ⟨n, hmeets.of_keeps hrenews.keeps⟩
      · obtain ⟨n, hmeets⟩ := hwalked'.mem_ways_iff.1 hway
        obtain hold | ⟨_, hreach⟩ | ⟨_, _, hnone, _⟩ := hmet hmeets
        · exact hwalked.mem_ways_iff.2 ⟨n, hold⟩
        · exact absurd hreach (hmisses _ hwalk' way (hwalked'.mem_iff.2 ⟨way, hway, rfl⟩))
        · cases hnone
    · obtain ⟨n, way, hmeets⟩ := exists_meets_of_walk hroot' hdir' hlist hinput hfailure
      obtain hold | ⟨hnone, _⟩ | ⟨path, fault, hsome, hfault⟩ := hmet hmeets
      · exact absurd hold (hwalked.not_meets n way failure)
      · cases hnone
      · cases hsome
        exact absurd hfailure (hopens path fault hfault)

/-- A file of a walk is where its way leads, if it can be read by its path. -/
theorem exists_reaches_of_mem (hwalk : (t.walk cwd root lines followLinks).result = .ok sources)
    {s : Source} (hs : s ∈ sources) (hfile : t.resolve cwd s.full = .ok place) :
    ∃ way, s = ⟨root.join (.ofNames way), .ofNames way⟩ ∧ Reaches t cwd root way place := by
  obtain ⟨start, list, hroot, hdir, hlist⟩ := exists_of_walk hwalk
  cases hinput : isStandardInput root with
  | true =>
    rw [result_walk_of_standardInput hroot hdir hlist hinput] at hwalk
    cases hwalk
    cases hs
  | false =>
    obtain ⟨ways, hwalked⟩ := exists_walked hroot hdir hlist hinput hwalk
    obtain ⟨way, hway, rfl⟩ := hwalked.mem_iff.1 hs
    obtain ⟨n, hmeets⟩ := hwalked.mem_ways_iff.1 hway
    obtain ⟨found, hreach⟩ := hmeets.exists_reaches (.root hroot)
    have hne : way ≠ [] := by
      rintro rfl
      simpa using hmeets.isPrefix
    cases hreach.eq_of_resolve hroot hne hfile
    exact ⟨way, rfl, hreach⟩

/-- A file of the walk that is not the renewed one has the same content. -/
theorem contentAt_of_renews (hrenews : Renews t t' target)
    (hwalk : (t'.walk cwd root lines followLinks).result = .ok sources)
    (hmisses : Misses t' cwd root sources target) {s : Source} (hs : s ∈ sources)
    {content : List UInt8} (h : t.contentAt cwd s.full = .ok content) :
    t'.contentAt cwd s.full = .ok content := by
  obtain ⟨file, mode, hfile, hentry⟩ := contentAt_eq_ok_iff.1 h
  have hfile' := resolve_of_keeps hrenews.keeps hfile
  have hne : file ≠ target := by
    rintro rfl
    obtain ⟨way, rfl, hreach⟩ := exists_reaches_of_mem hwalk hs hfile'
    exact hmisses way hs hreach
  refine contentAt_eq_ok_iff.2 ⟨file, mode, hfile', ?_⟩
  rcases hrenews.others file hne with hsame | ⟨hfree, _⟩
  · exact hsame.trans hentry
  · cases hfree.symm.trans hentry

end AssetBake.Walk
