import AssetBake.Proofs.FileTree.Following
import AssetBake.Proofs.Walk.Visiting
import Mathlib

/-!
# What a walk sees of an entry

A walk sees a file where one is or a link leads to one. It enters real directories and, if it goes through
links, directories off its chain that links lead to. What the exclude list leaves out looks like nothing,
but a walk through links resolves a link before it asks the list.
-/

namespace AssetBake.Walk

open FileTree

variable {t : FileTree} {rules : Rules} {chain : List Stop} {here : Stop} {n : Name} {next : Location}
  {fault : PathFault}

/-! ### Files and directories -/

theorem sight_of_none (h : t.find? (n :: here.place) = none) :
    sight t rules chain here n = .ok .nothing := by
  simp [sight, h]

theorem sight_of_file {mode : Nat} {content : List UInt8}
    (h : t.find? (n :: here.place) = some (.file mode content)) : sight t rules chain here n =
      .ok (if rules.Admits (here.way ++ [n]) false then .file else .nothing) := by
  simp [sight, h]

theorem sight_of_directory {mode : Nat} (h : t.find? (n :: here.place) = some (.directory mode))
    (hopens : checkPath (rules.fullPath (here.way ++ [n])) = .ok ()) : sight t rules chain here n =
      .ok (if rules.Admits (here.way ++ [n]) true then .directory (n :: here.place) else .nothing) := by
  by_cases hadmits : rules.Admits (here.way ++ [n]) true <;> simp [sight, h, hopens, hadmits]

theorem sight_of_unopened {mode : Nat} (h : t.find? (n :: here.place) = some (.directory mode))
    (hfault : checkPath (rules.fullPath (here.way ++ [n])) = .error fault) :
    sight t rules chain here n =
      if rules.Admits (here.way ++ [n]) true then
        .error (openFailure (rules.fullPath (here.way ++ [n])) fault)
      else .ok .nothing := by
  simp [sight, h, hfault]

/-! ### Links -/

theorem find?_place_eq_none_iff :
    (chain.find? fun stop => stop.place = next) = none ↔ next ∉ chain.map Stop.place := by
  simp [List.find?_eq_none]

theorem mem_of_find?_place {ancestor : Stop}
    (h : (chain.find? fun stop => stop.place = next) = some ancestor) :
    next ∈ chain.map Stop.place := by
  have hplace : ancestor.place = next := by simpa using List.find?_some h
  exact List.mem_map.2 ⟨ancestor, List.mem_of_find?_eq_some h, hplace⟩

section Links

variable {target : Path} (hlink : t.find? (n :: here.place) = some (.link target))
include hlink

theorem sight_of_link_to_file
    (hresolve : t.resolve rules.cwd (rules.fullPath (here.way ++ [n])) = .ok next)
    (hdir : t.isDirectory next = false) : sight t rules chain here n =
      .ok (if rules.Admits (here.way ++ [n]) false then .file else .nothing) := by
  by_cases hfollow : rules.followLinks = true
  · simp [sight, hlink, hfollow, hresolve, hdir]
  · by_cases hadmits : rules.Admits (here.way ++ [n]) false
    · simp [sight, hlink, hfollow, hresolve, hdir, hadmits]
    · simp [sight, hlink, hfollow, hadmits]

/-- A walk that does not go through links passes by a link to a directory. -/
theorem sight_of_unfollowed (hfollow : rules.followLinks = false)
    (hresolve : t.resolve rules.cwd (rules.fullPath (here.way ++ [n])) = .ok next)
    (hdir : t.isDirectory next = true) : sight t rules chain here n = .ok .nothing := by
  by_cases hadmits : rules.Admits (here.way ++ [n]) false
  · simp [sight, hlink, hfollow, hresolve, hdir, hadmits]
  · simp [sight, hlink, hfollow, hadmits]

theorem sight_of_link_off_chain (hfollow : rules.followLinks = true)
    (hresolve : t.resolve rules.cwd (rules.fullPath (here.way ++ [n])) = .ok next)
    (hdir : t.isDirectory next = true) (hnew : next ∉ chain.map Stop.place) :
    sight t rules chain here n =
      .ok (if rules.Admits (here.way ++ [n]) true then .directory next else .nothing) := by
  simp [sight, hlink, hfollow, hresolve, hdir, find?_place_eq_none_iff.2 hnew]

/-- A walk through links is stopped by a link back into its chain even if the list leaves it out. -/
theorem sight_of_link_into_chain {ancestor : Stop} (hfollow : rules.followLinks = true)
    (hresolve : t.resolve rules.cwd (rules.fullPath (here.way ++ [n])) = .ok next)
    (hdir : t.isDirectory next = true)
    (hloop : (chain.find? fun stop => stop.place = next) = some ancestor) :
    sight t rules chain here n =
      .error (loopFailure (rules.fullPath (here.way ++ [n])) (rules.fullPath ancestor.way)) := by
  simp [sight, hlink, hfollow, hresolve, hdir, hloop]

/-- A walk through links is stopped by a link that does not resolve even if the list leaves it out. -/
theorem sight_of_unresolved
    (hresolve : t.resolve rules.cwd (rules.fullPath (here.way ++ [n])) = .error fault) :
    sight t rules chain here n =
      if rules.followLinks then .error (openFailure (rules.fullPath (here.way ++ [n])) fault)
      else if rules.Admits (here.way ++ [n]) false then
        .error (unresolvedLink (rules.fullPath (here.way ++ [n])) fault)
      else .ok .nothing := by
  simp [sight, hlink, hresolve]

end Links

/-! ### All that can be seen -/

/-- What a walk can see of an entry, and what has to be there for it. -/
inductive Sees (t : FileTree) (rules : Rules) (chain : List Stop) (here : Stop) (n : Name) :
    Except Failure Sight → Prop
  | nothing : Sees t rules chain here n (.ok .nothing)
  | file {mode : Nat} {content : List UInt8}
      (hentry : t.find? (n :: here.place) = some (.file mode content))
      (hadmits : rules.Admits (here.way ++ [n]) false) : Sees t rules chain here n (.ok .file)
  | linkedFile {target : Path} {next : Location}
      (hentry : t.find? (n :: here.place) = some (.link target))
      (hresolve : t.resolve rules.cwd (rules.fullPath (here.way ++ [n])) = .ok next)
      (hdir : t.isDirectory next = false) (hadmits : rules.Admits (here.way ++ [n]) false) :
      Sees t rules chain here n (.ok .file)
  | directory {mode : Nat} (hentry : t.find? (n :: here.place) = some (.directory mode))
      (hopens : checkPath (rules.fullPath (here.way ++ [n])) = .ok ())
      (hadmits : rules.Admits (here.way ++ [n]) true) :
      Sees t rules chain here n (.ok (.directory (n :: here.place)))
  | linkedDirectory {target : Path} {next : Location} (hfollow : rules.followLinks = true)
      (hentry : t.find? (n :: here.place) = some (.link target))
      (hresolve : t.resolve rules.cwd (rules.fullPath (here.way ++ [n])) = .ok next)
      (hdir : t.isDirectory next = true) (hnew : next ∉ chain.map Stop.place)
      (hadmits : rules.Admits (here.way ++ [n]) true) :
      Sees t rules chain here n (.ok (.directory next))
  | unopened {mode : Nat} {fault : PathFault}
      (hentry : t.find? (n :: here.place) = some (.directory mode))
      (hfault : checkPath (rules.fullPath (here.way ++ [n])) = .error fault)
      (hadmits : rules.Admits (here.way ++ [n]) true) :
      Sees t rules chain here n (.error (openFailure (rules.fullPath (here.way ++ [n])) fault))
  | loop {target : Path} {next : Location} {ancestor : Stop} (hfollow : rules.followLinks = true)
      (hentry : t.find? (n :: here.place) = some (.link target))
      (hresolve : t.resolve rules.cwd (rules.fullPath (here.way ++ [n])) = .ok next)
      (hdir : t.isDirectory next = true)
      (hloop : (chain.find? fun stop => stop.place = next) = some ancestor) :
      Sees t rules chain here n
        (.error (loopFailure (rules.fullPath (here.way ++ [n])) (rules.fullPath ancestor.way)))
  | unresolved {target : Path} {fault : PathFault} (hfollow : rules.followLinks = true)
      (hentry : t.find? (n :: here.place) = some (.link target))
      (hfault : t.resolve rules.cwd (rules.fullPath (here.way ++ [n])) = .error fault) :
      Sees t rules chain here n (.error (openFailure (rules.fullPath (here.way ++ [n])) fault))
  | dangling {target : Path} {fault : PathFault} (hfollow : rules.followLinks = false)
      (hentry : t.find? (n :: here.place) = some (.link target))
      (hfault : t.resolve rules.cwd (rules.fullPath (here.way ++ [n])) = .error fault)
      (hadmits : rules.Admits (here.way ++ [n]) false) :
      Sees t rules chain here n (.error (unresolvedLink (rules.fullPath (here.way ++ [n])) fault))

theorem sees_of_link {target : Path} (hentry : t.find? (n :: here.place) = some (.link target)) :
    Sees t rules chain here n (sight t rules chain here n) := by
  rcases Except.ok_or_error (t.resolve rules.cwd (rules.fullPath (here.way ++ [n]))) with
    ⟨next, hresolve⟩ | ⟨fault, hfault⟩
  · cases hdir : t.isDirectory next with
    | false =>
      rw [sight_of_link_to_file hentry hresolve hdir]
      split
      · next hadmits => exact .linkedFile hentry hresolve hdir hadmits
      · exact .nothing
    | true =>
      cases hfollow : rules.followLinks with
      | false =>
        rw [sight_of_unfollowed hentry hfollow hresolve hdir]
        exact .nothing
      | true =>
        cases hloop : chain.find? fun stop => stop.place = next with
        | some ancestor =>
          rw [sight_of_link_into_chain hentry hfollow hresolve hdir hloop]
          exact .loop hfollow hentry hresolve hdir hloop
        | none =>
          have hnew := find?_place_eq_none_iff.1 hloop
          rw [sight_of_link_off_chain hentry hfollow hresolve hdir hnew]
          split
          · next hadmits => exact .linkedDirectory hfollow hentry hresolve hdir hnew hadmits
          · exact .nothing
  · rw [sight_of_unresolved hentry hfault]
    split
    · next hfollow => exact .unresolved hfollow hentry hfault
    · next hfollow =>
      split
      · next hadmits => exact .dangling (by simpa using hfollow) hentry hfault hadmits
      · exact .nothing

/-- A walk sees nothing else. -/
theorem sees_sight (t : FileTree) (rules : Rules) (chain : List Stop) (here : Stop) (n : Name) :
    Sees t rules chain here n (sight t rules chain here n) := by
  cases hentry : t.find? (n :: here.place) with
  | none =>
    rw [sight_of_none hentry]
    exact .nothing
  | some e =>
    cases e with
    | file =>
      rw [sight_of_file hentry]
      split
      · next hadmits => exact .file hentry hadmits
      · exact .nothing
    | directory =>
      rcases Except.ok_or_error (checkPath (rules.fullPath (here.way ++ [n]))) with
        ⟨_, hopens⟩ | ⟨fault, hfault⟩
      · rw [sight_of_directory hentry hopens]
        split
        · next hadmits => exact .directory hentry hopens hadmits
        · exact .nothing
      · rw [sight_of_unopened hentry hfault]
        split
        · next hadmits => exact .unopened hentry hfault hadmits
        · exact .nothing
    | link => exact sees_of_link hentry

theorem sees_of_sight {seen : Except Failure Sight} (h : sight t rules chain here n = seen) :
    Sees t rules chain here n seen :=
  h ▸ sees_sight t rules chain here n

/-- A walk sees what is there to be seen. -/
theorem Sees.sight_eq {seen : Except Failure Sight} (h : Sees t rules chain here n seen)
    (hseen : seen ≠ .ok .nothing) : sight t rules chain here n = seen := by
  cases h with
  | nothing => exact absurd rfl hseen
  | file hentry hadmits => rw [sight_of_file hentry, if_pos hadmits]
  | linkedFile hentry hresolve hdir hadmits =>
    rw [sight_of_link_to_file hentry hresolve hdir, if_pos hadmits]
  | directory hentry hopens hadmits => rw [sight_of_directory hentry hopens, if_pos hadmits]
  | linkedDirectory hfollow hentry hresolve hdir hnew hadmits =>
    rw [sight_of_link_off_chain hentry hfollow hresolve hdir hnew, if_pos hadmits]
  | unopened hentry hfault hadmits => rw [sight_of_unopened hentry hfault, if_pos hadmits]
  | loop hfollow hentry hresolve hdir hloop =>
    exact sight_of_link_into_chain hentry hfollow hresolve hdir hloop
  | unresolved hfollow hentry hfault => rw [sight_of_unresolved hentry hfault, if_pos hfollow]
  | dangling hfollow hentry hfault hadmits =>
    rw [sight_of_unresolved hentry hfault, if_neg (by simp [hfollow]), if_pos hadmits]

end AssetBake.Walk
