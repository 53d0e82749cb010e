import AssetBake.Proofs.Exclude.Appending
import AssetBake.Proofs.Walk.Order
import AssetBake.Proofs.Walk.Sights
import Mathlib

/-!
# Walks that leave out more

A walk with an exclude list that lets less through meets nothing that the walk with the other list does
not meet, neither a file nor an obstacle. So it succeeds if the other one does, with some of its files in
the same order.
-/

namespace AssetBake.Walk

variable {t : FileTree} {rules : Rules} {list wide : ExcludeList} {chain above : List Stop}
  {here : Stop} {n : Name} {way : List Name} {met : Option Failure}

def Rules.withExclude (rules : Rules) (list : ExcludeList) : Rules :=
  { rules with exclude := list }

/-- A list lets nothing through that another list leaves out. -/
def Narrows (list wide : ExcludeList) : Prop :=
  ∀ path isDirectory, wide.verdict path isDirectory = .ignore → list.verdict path isDirectory = .ignore

theorem Narrows.admits (h : Narrows list rules.exclude) {isDirectory : Bool}
    (hadmits : (rules.withExclude list).Admits way isDirectory) : rules.Admits way isDirectory :=
  fun hignore => hadmits (h _ _ hignore)

/-- What the walk that leaves out more sees, the other one sees too. -/
theorem Narrows.sees (h : Narrows list rules.exclude) {seen : Except Failure Sight}
    (hsees : Sees t (rules.withExclude list) chain here n seen) : Sees t rules chain here n seen := by
  cases hsees with
  | nothing => exact .nothing
  | file hentry hadmits => exact .file hentry (h.admits hadmits)
  | linkedFile hentry hresolve hdir hadmits =>
    exact .linkedFile hentry hresolve hdir (h.admits hadmits)
  | directory hentry hopens hadmits => exact .directory hentry hopens (h.admits hadmits)
  | linkedDirectory hfollow hentry hresolve hdir hnew hadmits =>
    exact .linkedDirectory hfollow hentry hresolve hdir hnew (h.admits hadmits)
  | unopened hentry hfault hadmits => exact .unopened hentry hfault (h.admits hadmits)
  | loop hfollow hentry hresolve hdir hloop => exact .loop hfollow hentry hresolve hdir hloop
  | unresolved hfollow hentry hfault => exact .unresolved hfollow hentry hfault
  | dangling hfollow hentry hfault hadmits =>
    exact .dangling hfollow hentry hfault (h.admits hadmits)

theorem Narrows.sight_of (h : Narrows list rules.exclude) {seen : Except Failure Sight}
    (hsight : sight t (rules.withExclude list) chain here n = seen) (hseen : seen ≠ .ok .nothing) :
    sight t rules chain here n = seen := by
  have hsees : Sees t rules chain here n seen := h.sees (sees_of_sight hsight)
  exact hsees.sight_eq hseen

/-- What the walk that leaves out more meets, the other one meets too. -/
theorem Narrows.meets (h : Narrows list rules.exclude)
    (hmeets : Meets t (rules.withExclude list) above here n way met) :
    Meets t rules above here n way met := by
  induction hmeets with
  | file hsight => exact .file (h.sight_of hsight (by simp))
  | stuck hsight => exact .stuck (h.sight_of hsight (by simp))
  | inside hsight _ ih => exact .inside (h.sight_of hsight (by simp)) ih

/-! ### The whole walk -/

variable {cwd place : Location} {root : Path} {lines wideLines : List (List Char)}
  {followLinks : Bool} {sources kept : List Source} {ways keptWays : List (List Name)}

/-- The files of a walk that leaves out more are some of those of the other, in the same order. -/
theorem Walked.sublist (h : Walked t (rules.withExclude list) place kept keptWays)
    (hwide : Walked t rules place sources ways) (hnarrow : Narrows list rules.exclude)
    (htexts : ∀ way ∈ ways, AreTexts way) : kept.Sublist sources := by
  have hways : ∀ way ∈ keptWays, way ∈ ways := by
    intro way hway
    obtain ⟨n, hmeets⟩ := h.mem_ways_iff.1 hway
    exact hwide.mem_ways_iff.2 ⟨n, hnarrow.meets hmeets⟩
  have hsources : kept ⊆ sources := by
    intro s hs
    obtain ⟨way, hway, rfl⟩ := h.mem_iff.1 hs
    exact hwide.mem_iff.2 ⟨way, hways way hway, rfl⟩
  apply List.sublist_of_subperm_of_pairwise (r := Before) (h.nodup.subperm hsources)
  · exact h.before fun way hway => htexts way (hways way hway)
  · exact hwide.before htexts

/-- A walk with a longer list succeeds if the walk with the other one does, with some of its files in the
same order. -/
theorem exists_walk_sublist (hlist : ExcludeList.ofLines root lines = .ok list)
    (hwideList : ExcludeList.ofLines root wideLines = .ok wide) (hnarrow : Narrows list wide)
    (hwalk : (t.walk cwd root wideLines followLinks).result = .ok sources)
    (htexts : ∀ way, ⟨root.join (.ofNames way), .ofNames way⟩ ∈ sources → AreTexts way) :
    ∃ kept, (t.walk cwd root lines followLinks).result = .ok kept ∧ kept.Sublist sources := by
  obtain ⟨place, found, hroot, hdir, hfound⟩ := exists_of_walk hwalk
  cases hwideList.symm.trans hfound
  cases hinput : isStandardInput root with
  | true =>
    exact ⟨[], result_walk_of_standardInput hroot hdir hlist hinput, List.nil_sublist sources⟩
  | false =>
    obtain ⟨ways, hwide⟩ := exists_walked hroot hdir hwideList hinput hwalk
    rcases Except.ok_or_error (t.walk cwd root lines followLinks).result with
      ⟨kept, hkept⟩ | ⟨failure, hfailure⟩
    · obtain ⟨keptWays, hwalked⟩ := exists_walked hroot hdir hlist hinput hkept
      have hnarrowed : Walked t (Rules.withExclude ⟨cwd, root, wide, followLinks⟩ list) place kept
          keptWays := hwalked
      refine ⟨kept, hkept, hnarrowed.sublist hwide hnarrow fun way hway => ?_⟩
      exact htexts way (hwide.mem_iff.2 ⟨way, hway, rfl⟩)
    · obtain ⟨n, way, hmeets⟩ := exists_meets_of_walk hroot hdir hlist hinput hfailure
      have hmet : Meets t ⟨cwd, root, wide, followLinks⟩ [] ⟨place, []⟩ n way (some failure) :=
        hnarrow.meets hmeets
      exact absurd hmet (hwide.not_meets n way failure)

end AssetBake.Walk
