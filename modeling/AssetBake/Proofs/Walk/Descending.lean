import AssetBake.Proofs.Walk.Exactness
import AssetBake.Proofs.Walk.Sights
import Mathlib

/-!
# Walks through links

A walk is inside a chain of directories. It goes down into real directories, and through a link into a
directory that is not on the chain. However the links lie no chain is longer than a bound that the tree
gives, although the tree has no longest path. A walk through links fails just if it comes to a link that
leads nowhere or back into the chain, or to a directory with too long a path; else it finds each file
that it comes to once.
-/

namespace AssetBake.Walk

open FileTree

variable {t : FileTree} {rules : Rules} {chain above : List Stop} {here : Stop} {n : Name}
  {place next : Location} {way : List Name} {met : Option Failure}

/-! ### Chains of directories -/

/-- A walk can be inside these directories, the innermost first, from the one where it begins. -/
inductive Rules.Inside (rules : Rules) (t : FileTree) (place : Location) : List Stop → Prop
  | root : rules.Inside t place [⟨place, []⟩]
  | directory {above : List Stop} {here : Stop} {n : Name} {mode : Nat}
      (h : rules.Inside t place (here :: above))
      (hentry : t.find? (n :: here.place) = some (.directory mode))
      (hadmits : rules.Admits (here.way ++ [n]) true)
      (hopens : checkPath (rules.fullPath (here.way ++ [n])) = .ok ()) :
      rules.Inside t place (⟨n :: here.place, here.way ++ [n]⟩ :: here :: above)
  | link {above : List Stop} {here : Stop} {n : Name} {target : Path} {next : Location}
      (h : rules.Inside t place (here :: above)) (hfollow : rules.followLinks = true)
      (hentry : t.find? (n :: here.place) = some (.link target))
      (hresolve : t.resolve rules.cwd (rules.fullPath (here.way ++ [n])) = .ok next)
      (hdir : t.isDirectory next = true) (hnew : next ∉ (here :: above).map Stop.place)
      (hadmits : rules.Admits (here.way ++ [n]) true) :
      rules.Inside t place (⟨next, here.way ++ [n]⟩ :: here :: above)

/-- No chain of directories in the tree is longer. -/
def longestChain (t : FileTree) : Nat :=
  (directories t).length * (t.entries.length + 1)

/-- What bounds the way down from a chain: the directories off the chain count more than all entries
together, the entries below the innermost directory one each. -/
def room (t : FileTree) (chain : List Stop) : Nat :=
  outside t chain * (t.entries.length + 1) +
    match chain with
    | [] => 0
    | here :: _ => sizeBelow t here.place

theorem sizeBelow_le (t : FileTree) (place : Location) : sizeBelow t place ≤ t.entries.length :=
  List.length_filter_le _ _

theorem outside_root_lt (hdir : t.isDirectory place = true) :
    outside t [⟨place, []⟩] < (directories t).length := by
  have hall : outside t [] = (directories t).length := by simp [outside]
  rw [← hall]
  exact outside_cons_lt hdir (by simp)

/-- A directory off the chain takes less room than the chain had, whatever is below it. -/
theorem room_lt_of_outside (hdir : t.isDirectory next = true)
    (hnew : next ∉ chain.map Stop.place) (way : List Name) :
    room t (⟨next, way⟩ :: chain) < room t chain := by
  have houtside : outside t (⟨next, way⟩ :: chain) < outside t chain := outside_cons_lt hdir hnew
  have hbelow := sizeBelow_le t next
  have hmul := Nat.mul_le_mul_right (t.entries.length + 1) (Nat.succ_le_of_lt houtside)
  rw [Nat.succ_mul] at hmul
  simp only [room]
  omega

theorem room_lt_of_below (hdir : t.isDirectory (n :: here.place) = true) (above : List Stop)
    (way : List Name) : room t (⟨n :: here.place, way⟩ :: here :: above) < room t (here :: above) := by
  have houtside := outside_cons_le t ⟨n :: here.place, way⟩ (here :: above)
  have hmul := Nat.mul_le_mul_right (t.entries.length + 1) houtside
  have hbelow := sizeBelow_cons_lt hdir
  simp only [room]
  omega

/-- Every step down takes room, and so no chain outgrows the room that there is. -/
theorem Rules.Inside.length_add_room_le (hdir : t.isDirectory place = true)
    (h : rules.Inside t place chain) : chain.length + room t chain ≤ longestChain t := by
  induction h with
  | root =>
    have houtside := outside_root_lt hdir
    have hbelow := sizeBelow_le t place
    have hmul := Nat.mul_le_mul_right (t.entries.length + 1) (Nat.succ_le_of_lt houtside)
    rw [Nat.succ_mul] at hmul
    simp only [room, longestChain, List.length_singleton]
    omega
  | @directory above here n mode _ hentry _ _ ih =>
    have hlt := room_lt_of_below ((t.isDirectory_iff _).2 ⟨mode, hentry⟩) above (here.way ++ [n])
    rw [List.length_cons]
    omega
  | @link above here n target next _ _ _ _ hnext hnew _ ih =>
    have hlt := room_lt_of_outside hnext hnew (here.way ++ [n])
    rw [List.length_cons]
    omega

theorem Rules.Inside.length_le (hdir : t.isDirectory place = true) (h : rules.Inside t place chain) :
    chain.length ≤ longestChain t := by
  have hroom := h.length_add_room_le hdir
  omega

/-! ### What the walk comes to -/

/-- Whatever an entry shows is met from the root of the walk, if the walk is inside its directory. -/
theorem Rules.Inside.exists_meets (h : rules.Inside t place (here :: above))
    (hmeets : Meets t rules above here n way met) :
    ∃ m, Meets t rules [] ⟨place, []⟩ m way met := by
  generalize hchain : here :: above = chain at h
  induction h generalizing above here n with
  | root =>
    cases hchain
    exact ⟨n, hmeets⟩
  | directory _ hentry hadmits hopens ih =>
    cases hchain
    refine ih (.inside ?_ hmeets) rfl
    rw [sight_of_directory hentry hopens, if_pos hadmits]
  | link _ hfollow hentry hresolve hdir hnew hadmits ih =>
    cases hchain
    refine ih (.inside ?_ hmeets) rfl
    rw [sight_of_link_off_chain hentry hfollow hresolve hdir hnew, if_pos hadmits]

/-- The walk is inside every directory that it sees to be entered. -/
theorem Rules.Inside.of_sight (h : rules.Inside t place (here :: above))
    (hsight : sight t rules (here :: above) here n = .ok (.directory next)) :
    rules.Inside t place (⟨next, here.way ++ [n]⟩ :: here :: above) := by
  cases sees_of_sight hsight with
  | directory hentry hopens hadmits => exact h.directory hentry hadmits hopens
  | linkedDirectory hfollow hentry hresolve hdir hnew hadmits =>
    exact h.link hfollow hentry hresolve hdir hnew hadmits

/-- Whatever is met is shown by an entry of a directory that the walk is inside of. -/
theorem Meets.exists_inside (hmeets : Meets t rules above here n way met)
    (h : rules.Inside t place (here :: above)) :
    ∃ above' here' m, rules.Inside t place (here' :: above') ∧ way = here'.way ++ [m] ∧
      (met = none ∧ sight t rules (here' :: above') here' m = .ok .file ∨
        ∃ failure, met = some failure ∧ sight t rules (here' :: above') here' m = .error failure) := by
  induction hmeets with
  | file hsight => exact ⟨_, _, _, h, rfl, .inl ⟨rfl, hsight⟩⟩
  | stuck hsight => exact ⟨_, _, _, h, rfl, .inr ⟨_, rfl, hsight⟩⟩
  | inside hsight _ ih => exact ih (h.of_sight hsight)

/-- Inside a chain of directories is a file, or a link to one, that is not left out. -/
inductive Rules.ComesTo (rules : Rules) (t : FileTree) (place : Location) : List Name → Prop
  | file {above : List Stop} {here : Stop} {n : Name} {mode : Nat} {content : List UInt8}
      (h : rules.Inside t place (here :: above))
      (hentry : t.find? (n :: here.place) = some (.file mode content))
      (hadmits : rules.Admits (here.way ++ [n]) false) : rules.ComesTo t place (here.way ++ [n])
  | link {above : List Stop} {here : Stop} {n : Name} {target : Path} {next : Location}
      (h : rules.Inside t place (here :: above))
      (hentry : t.find? (n :: here.place) = some (.link target))
      (hresolve : t.resolve rules.cwd (rules.fullPath (here.way ++ [n])) = .ok next)
      (hdir : t.isDirectory next = false) (hadmits : rules.Admits (here.way ++ [n]) false) :
      rules.ComesTo t place (here.way ++ [n])

/-- Inside a chain of directories is what stops a walk through links: a link that does not resolve or
leads to a directory of the chain, or a directory whose path the system does not take. -/
inductive Rules.Stuck (rules : Rules) (t : FileTree) (place : Location) : Prop
  | unresolved {above : List Stop} {here : Stop} {n : Name} {target : Path} {fault : PathFault}
      (h : rules.Inside t place (here :: above))
      (hentry : t.find? (n :: here.place) = some (.link target))
      (hfault : t.resolve rules.cwd (rules.fullPath (here.way ++ [n])) = .error fault)
  | loop {above : List Stop} {here : Stop} {n : Name} {target : Path} {next : Location}
      (h : rules.Inside t place (here :: above))
      (hentry : t.find? (n :: here.place) = some (.link target))
      (hresolve : t.resolve rules.cwd (rules.fullPath (here.way ++ [n])) = .ok next)
      (hdir : t.isDirectory next = true) (hinside : next ∈ (here :: above).map Stop.place)
  | unopened {above : List Stop} {here : Stop} {n : Name} {mode : Nat} {fault : PathFault}
      (h : rules.Inside t place (here :: above))
      (hentry : t.find? (n :: here.place) = some (.directory mode))
      (hadmits : rules.Admits (here.way ++ [n]) true)
      (hfault : checkPath (rules.fullPath (here.way ++ [n])) = .error fault)

theorem exists_meets_none_iff :
    (∃ n, Meets t rules [] ⟨place, []⟩ n way none) ↔ rules.ComesTo t place way := by
  constructor
  · rintro ⟨n, hmeets⟩
    obtain ⟨above, here, m, h, rfl, ⟨_, hsight⟩ | ⟨_, hnone, _⟩⟩ := hmeets.exists_inside .root
    · cases sees_of_sight hsight with
      | file hentry hadmits => exact .file h hentry hadmits
      | linkedFile hentry hresolve hdir hadmits => exact .link h hentry hresolve hdir hadmits
    · cases hnone
  · intro hcomes
    cases hcomes with
    | file h hentry hadmits =>
      refine h.exists_meets (.file ?_)
      rw [sight_of_file hentry, if_pos hadmits]
    | link h hentry hresolve hdir hadmits =>
      refine h.exists_meets (.file ?_)
      rw [sight_of_link_to_file hentry hresolve hdir, if_pos hadmits]

/-- A walk that gets stuck is stopped by what it sees. -/
theorem Rules.Stuck.exists_sight (hfollow : rules.followLinks = true) (h : rules.Stuck t place) :
    ∃ above here n failure, rules.Inside t place (here :: above) ∧
      sight t rules (here :: above) here n = .error failure := by
  cases h with
  | @unresolved above here n _ _ h hentry hfault =>
    exact ⟨above, here, n, _, h, (Sees.unresolved hfollow hentry hfault).sight_eq (by simp)⟩
  | @loop above here n _ _ h hentry hresolve hdir hinside =>
    obtain ⟨ancestor, hloop⟩ := Option.ne_none_iff_exists'.1
      fun hnone => find?_place_eq_none_iff.1 hnone hinside
    have hsees := Sees.loop hfollow hentry hresolve hdir hloop
    exact ⟨above, here, n, _, h, hsees.sight_eq (by simp)⟩
  | @unopened above here n _ _ h hentry hadmits hfault =>
    exact ⟨above, here, n, _, h, (Sees.unopened hentry hfault hadmits).sight_eq (by simp)⟩

theorem exists_meets_failure_iff (hfollow : rules.followLinks = true) :
    (∃ n way failure, Meets t rules [] ⟨place, []⟩ n way (some failure)) ↔ rules.Stuck t place := by
  constructor
  · rintro ⟨n, way, failure, hmeets⟩
    obtain ⟨above, here, m, h, rfl, ⟨hsome, _⟩ | ⟨_, hsome, hsight⟩⟩ := hmeets.exists_inside .root
    · cases hsome
    · cases sees_of_sight hsight with
      | unopened hentry hfault hadmits => exact .unopened h hentry hadmits hfault
      | loop _ hentry hresolve hdir hloop =>
        exact .loop h hentry hresolve hdir (mem_of_find?_place hloop)
      | unresolved _ hentry hfault => exact .unresolved h hentry hfault
      | dangling hunfollowed => simp [hfollow] at hunfollowed
  · intro hstuck
    obtain ⟨above, here, n, failure, h, hsight⟩ := hstuck.exists_sight hfollow
    obtain ⟨m, hmeets⟩ := h.exists_meets (.stuck hsight)
    exact ⟨m, _, failure, hmeets⟩

/-- All that stops a walk is a file, link or directory that cannot be read. -/
theorem Meets.exists_eq_assetReadFailure (h : Meets t rules above here n way met)
    {failure : Failure} (hmet : met = some failure) :
    ∃ path reason, failure = .assetReadFailure path reason := by
  induction h with
  | file => cases hmet
  | @stuck above here n failure' hsight =>
    cases hmet
    cases sees_of_sight hsight with
    | unopened => exact ⟨_, _, rfl⟩
    | loop => exact ⟨_, _, rfl⟩
    | unresolved => exact ⟨_, _, rfl⟩
    | dangling => exact ⟨_, _, rfl⟩
  | inside _ _ ih => exact ih hmet

/-! ### The whole walk -/

variable {cwd : Location} {root : Path} {lines : List (List Char)} {list : ExcludeList}

/-- A walk through links fails, with what cannot be read, just if it gets stuck. -/
theorem exists_walk_eq_error_iff (hroot : t.resolve cwd root = .ok place)
    (hdir : t.isDirectory place = true) (hlist : ExcludeList.ofLines root lines = .ok list)
    (hinput : isStandardInput root = false) :
    (∃ path reason, (t.walk cwd root lines true).result = .error (.assetReadFailure path reason)) ↔
      Rules.Stuck ⟨cwd, root, list, true⟩ t place := by
  rw [← exists_meets_failure_iff rfl]
  constructor
  · rintro ⟨path, reason, hfailure⟩
    obtain ⟨n, way, hmeets⟩ := exists_meets_of_walk hroot hdir hlist hinput hfailure
    exact ⟨n, way, _, hmeets⟩
  · rintro ⟨n, way, failure, hmeets⟩
    rcases Except.ok_or_error (t.walk cwd root lines true).result with
      ⟨sources, hwalk⟩ | ⟨other, hother⟩
    · obtain ⟨ways, hwalked⟩ := exists_walked hroot hdir hlist hinput hwalk
      exact absurd hmeets (hwalked.not_meets n way failure)
    · obtain ⟨m, way', hstuck⟩ := exists_meets_of_walk hroot hdir hlist hinput hother
      obtain ⟨path, reason, rfl⟩ := hstuck.exists_eq_assetReadFailure rfl
      exact ⟨path, reason, hother⟩

/-- A walk that is not stuck finds each file that it comes to, and finds it once. -/
theorem exists_walk_of_not_stuck (hroot : t.resolve cwd root = .ok place)
    (hdir : t.isDirectory place = true) (hlist : ExcludeList.ofLines root lines = .ok list)
    (hinput : isStandardInput root = false)
    (hclear : ¬Rules.Stuck ⟨cwd, root, list, true⟩ t place) :
    ∃ sources, (t.walk cwd root lines true).result = .ok sources ∧ sources.Nodup ∧
      ∀ s, s ∈ sources ↔ ∃ way, Rules.ComesTo ⟨cwd, root, list, true⟩ t place way ∧
        s = ⟨root.join (.ofNames way), .ofNames way⟩ := by
  rcases Except.ok_or_error (t.walk cwd root lines true).result with
    ⟨sources, hwalk⟩ | ⟨failure, hfailure⟩
  · obtain ⟨ways, hwalked⟩ := exists_walked hroot hdir hlist hinput hwalk
    refine ⟨sources, hwalk, hwalked.nodup, fun s => ?_⟩
    rw [hwalked.mem_iff]
    apply exists_congr
    intro way
    apply and_congr_left
    intro _
    rw [hwalked.mem_ways_iff, exists_meets_none_iff]
  · obtain ⟨n, way, hmeets⟩ := exists_meets_of_walk hroot hdir hlist hinput hfailure
    exact absurd ((exists_meets_failure_iff rfl).1 ⟨n, way, failure, hmeets⟩) hclear

/-- The rules of a walk through links that leaves nothing out. -/
def Rules.throughLinks (cwd : Location) (root : Path) : Rules where
  cwd := cwd
  root := root
  exclude := ⟨⟨dropLeadingCurrent root.bytes⟩, []⟩
  followLinks := true

theorem Rules.admits_throughLinks (cwd : Location) (root : Path) (way : List Name)
    (isDirectory : Bool) : (Rules.throughLinks cwd root).Admits way isDirectory := by
  simp [Admits, throughLinks, ExcludeList.verdict]

/-- However the links lie, no walk gets deeper than a bound that the tree gives. A walk through links that
leaves nothing out fails just if it comes to a link that does not resolve or leads to a directory that
it is inside of, or to a directory with too long a path; else it finds all files that it comes to, each
once. -/
theorem walk_through_links (hroot : t.resolve cwd root = .ok place)
    (hdir : t.isDirectory place = true) (hinput : isStandardInput root = false) :
    (∀ list followLinks chain, Rules.Inside ⟨cwd, root, list, followLinks⟩ t place chain →
      chain.length ≤ longestChain t) ∧
    (∀ way isDirectory, (Rules.throughLinks cwd root).Admits way isDirectory) ∧
    ((∃ path reason, (t.walk cwd root [] true).result = .error (.assetReadFailure path reason)) ↔
      (Rules.throughLinks cwd root).Stuck t place) ∧
    (¬(Rules.throughLinks cwd root).Stuck t place →
      ∃ sources, (t.walk cwd root [] true).result = .ok sources ∧ sources.Nodup ∧
        ∀ s, s ∈ sources ↔ ∃ way, (Rules.throughLinks cwd root).ComesTo t place way ∧
          s = (Rules.throughLinks cwd root).source way) :=
  ⟨fun _ _ _ h => h.length_le hdir, Rules.admits_throughLinks cwd root,
    exists_walk_eq_error_iff hroot hdir rfl hinput,
    exists_walk_of_not_stuck hroot hdir rfl hinput⟩

/-! ### Shared links -/

def nameB : Name := ⟨[0x62], by decide⟩

/-- The directory `d` with two links to the directory `e`, which has a file in it. -/
def sharingTree : FileTree where
  entries :=
    [([Job.nameD], .directory 0o755), ([nameA, Job.nameD], .link (.ofString "../e")),
      ([nameB, Job.nameD], .link (.ofString "../e")), ([Job.nameE], .directory 0o755),
      ([Job.nameF, Job.nameE], .file 0o644 [])]
  distinct := by decide
  rooted := by simp

/-- Two links may lead to one directory: no chain has both. The file in it is found by each of them. -/
theorem walk_through_links_shared :
    sharingTree.resolve [] (.ofString "d") = .ok [Job.nameD] ∧
    sharingTree.isDirectory [Job.nameD] = true ∧ isStandardInput (.ofString "d") = false ∧
    ∃ sources, (sharingTree.walk [] (.ofString "d") [] true).result = .ok sources ∧
      sources.Nodup ∧ ⟨.ofString "d/a/f", .ofString "a/f"⟩ ∈ sources ∧
      ⟨.ofString "d/b/f", .ofString "b/f"⟩ ∈ sources := by
  have hroot : sharingTree.resolve [] (.ofString "d") = .ok [Job.nameD] := by cbv
  have hdir : sharingTree.isDirectory [Job.nameD] = true := by cbv
  have hinput : isStandardInput (.ofString "d") = false := by cbv
  have hvisit : (visit sharingTree (Rules.throughLinks [] (.ofString "d")) [] ⟨[Job.nameD], []⟩
      (sharingTree.names [Job.nameD])).result =
      .ok [⟨.ofString "d/a/f", .ofString "a/f"⟩, ⟨.ofString "d/b/f", .ofString "b/f"⟩] := by cbv
  obtain ⟨_, hadmits, hstuck, hfinds⟩ := walk_through_links hroot hdir hinput
  have hclear : ¬(Rules.throughLinks [] (.ofString "d")).Stuck sharingTree [Job.nameD] := by
    intro h
    obtain ⟨path, reason, hfailure⟩ := hstuck.2 h
    rw [result_walk hroot hdir rfl hinput] at hfailure
    cases (Except.map_eq_error_iff.1 hfailure).symm.trans hvisit
  obtain ⟨sources, hwalk, hnodup, hmem⟩ := hfinds hclear
  -- The file is found through any link in `d` that leads to its directory.
  have hcomes : ∀ n, sharingTree.find? [n, Job.nameD] = some (.link (.ofString "../e")) →
      sharingTree.resolve [] ((Rules.throughLinks [] (.ofString "d")).fullPath [n]) =
        .ok [Job.nameE] →
      (Rules.throughLinks [] (.ofString "d")).source [n, Job.nameF] ∈ sources := by
    intro n hentry hresolve
    have hinside := Rules.Inside.root.link rfl hentry hresolve (by cbv) (by decide) (hadmits _ _)
    have hfile : sharingTree.find? [Job.nameF, Job.nameE] = some (.file 0o644 []) := by cbv
    exact (hmem _).2 ⟨_, .file hinside hfile (hadmits _ _), rfl⟩
  exact ⟨hroot, hdir, hinput, sources, hwalk, hnodup, hcomes nameA (by cbv) (by cbv),
    hcomes nameB (by cbv) (by cbv)⟩

/-! ### A directory with too long a path -/

/-- No link is there, and yet the walk fails. -/
theorem walk_through_links_overlong :
    branchingTree.resolve [] (Job.slashed 4094) = .ok [Job.nameD] ∧
    branchingTree.isDirectory [Job.nameD] = true ∧
    isStandardInput (Job.slashed 4094) = false ∧
    (∀ q target, branchingTree.find? q ≠ some (.link target)) ∧
    (branchingTree.walk [] (Job.slashed 4094) [] true).result =
      .error (openFailure ⟨(Job.slashed 4094).bytes ++ Job.nameE.bytes⟩ .nameTooLong) := by
  have hdir : branchingTree.isDirectory [Job.nameD] = true := by cbv
  exact ⟨resolve_branchingTree, hdir, Job.isStandardInput_slashed _, not_link_branchingTree,
    walk_branchingTree true⟩

end AssetBake.Walk
