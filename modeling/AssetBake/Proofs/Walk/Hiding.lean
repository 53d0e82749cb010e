import AssetBake.Proofs.FileTree.Passing
import AssetBake.Proofs.Walk.Descending
import AssetBake.Proofs.Walk.Growing
import Mathlib

/-!
# Entries that a walk does not see

Where the exclude list leaves an entry out, by every way on which the walk comes to it, and no other link
resolves through it, the walk goes as it does without the entry. A walk that does not go through links
has one way to an entry. A walk that does may have many; it resolves links before it asks the list.
-/

namespace AssetBake.Walk

open FileTree

variable {t : FileTree} {rules : Rules} {chain above : List Stop} {here : Stop} {n : Name}
  {mark place : Location} {way : List Name}

/-! ### Where paths lead without the entry -/

theorem Reaches.of_extends {t' : FileTree} {cwd : Location} {root : Path} (hext : Extends t t')
    (h : Reaches t cwd root way place) : Reaches t' cwd root way place := by
  induction h with
  | root hroot => exact .root (resolve_of_extends hext hroot)
  | entry _ hentry hlink ih => exact ih.entry (hext _ _ hentry) hlink
  | link _ hlink hresolve ih => exact ih.link (hext _ _ hlink) (resolve_of_extends hext hresolve)

theorem Rules.Inside.reaches {start : Location} (hroot : t.resolve rules.cwd rules.root = .ok start)
    (h : rules.Inside t start (here :: above)) : Reaches t rules.cwd rules.root here.way here.place := by
  generalize hchain : here :: above = chain at h
  induction h generalizing here above with
  | root =>
    cases hchain
    exact .root hroot
  | directory _ hentry _ _ ih =>
    cases hchain
    exact (ih rfl).entry hentry (by simp)
  | link _ _ hentry hresolve _ _ _ ih =>
    cases hchain
    rw [fullPath_append_singleton] at hresolve
    exact (ih rfl).link hentry hresolve

section Reaching

variable {cwd start : Location} {root : Path} {links : Nat} (hne : mark ≠ [])
  (hroot : (t.remove mark).resolve cwd root = .ok start)
include hroot

/-- Names look up the mark if the last of them does so from where the others lead. -/
theorem Reaches.passes_of_append (h : Reaches (t.remove mark) cwd root way place)
    (hle : links ≤ maxLinks) (hpasses : Passes t mark links start ((way ++ [n]).map .name)) :
    Passes t mark links start (way.map .name) ∨ Passes t mark maxLinks place [.name n] := by
  rw [List.map_append] at hpasses
  obtain hfront | ⟨links', mid, hle', hfront, hlast⟩ := hpasses.split
  · exact .inl hfront
  · have hext := extends_remove t mark
    have hsame := (h.of_extends hext).eq_of_leads (resolve_of_extends hext hroot) hle hfront
    rw [hsame]
    exact .inr (hlast.mono (hle'.trans hle))

include hne

/-- The names of a way do not look up the mark. -/
theorem Reaches.not_passes (hunlinked : Unlinked t mark)
    (h : Reaches (t.remove mark) cwd root way place) (hle : links ≤ maxLinks) :
    ¬Passes t mark links start (way.map .name) := by
  induction h with
  | root => exact not_passes_nil
  | entry h hentry hlink ih =>
    intro hpasses
    obtain hfront | hlast := h.passes_of_append hroot hle hpasses
    · exact ih hfront
    · cases hlast with
      | here _ _ hmark => exact not_suffix_of_find?_remove hne hentry (hmark ▸ List.suffix_refl _)
      | stay hstep => simp at hstep
      | enter _ _ _ _ hrest => exact not_passes_nil hrest
      | link _ _ hother =>
        have hkept := extends_remove t mark _ _ hentry
        exact hlink _ (Option.some.inj (hkept.symm.trans hother))
  | link h hlink _ ih =>
    intro hpasses
    obtain hfront | hlast := h.passes_of_append hroot hle hpasses
    · exact ih hfront
    · have hkept := extends_remove t mark _ _ hlink
      exact hunlinked _ _ _ (not_suffix_of_find?_remove hne hlink) hkept hlast

/-- A link that the walk comes to resolves in the same way without the entry. -/
theorem Reaches.resolve_eq (hunlinked : Unlinked t mark)
    (h : Reaches (t.remove mark) cwd root way place) {target : Path}
    (hlink : (t.remove mark).find? (n :: place) = some (.link target)) :
    (t.remove mark).resolve cwd (root.join (.ofNames (way ++ [n]))) =
      t.resolve cwd (root.join (.ofNames (way ++ [n]))) := by
  have hstart : startOf cwd (root.join (.ofNames (way ++ [n]))) = startOf cwd root := by
    rw [startOf, Path.isAbsolute_join_ofNames, ← startOf]
  apply resolve_remove
  · rw [hstart]
    exact not_suffix_of_resolve_remove hne hroot
  · rw [hstart, Path.steps_join_ofNames root (by simp)]
    intro hpasses
    have hleads := leads_bareSteps hroot
    obtain hfront | ⟨links, mid, hle, hfront, hnames⟩ := hpasses.split
    · exact hleads.not_passes hne hfront
    · cases hfront.eq (hleads.of_keeps (extends_remove t mark).keeps)
      obtain hway | hlast := h.passes_of_append hroot hle hnames
      · exact h.not_passes hne hroot hunlinked hle hway
      · have hkept := extends_remove t mark _ _ hlink
        exact hunlinked _ _ _ (not_suffix_of_find?_remove hne hlink) hkept hlast

end Reaching

/-! ### What the walk sees without the entry -/

/-- The exclude list leaves out an entry that the walk comes to. A walk through links resolves a link
before it asks the list: it must not lead nowhere, nor back into the chain. -/
inductive Rules.LeavesOut (rules : Rules) (t : FileTree) (chain : List Stop) (way : List Name) :
    Entry → Prop
  | file {mode : Nat} {content : List UInt8} (hleft : ¬rules.Admits way false) :
      rules.LeavesOut t chain way (.file mode content)
  | directory {mode : Nat} (hleft : ¬rules.Admits way true) :
      rules.LeavesOut t chain way (.directory mode)
  | unfollowed {target : Path} (hfollow : rules.followLinks = false)
      (hleft : ¬rules.Admits way false) : rules.LeavesOut t chain way (.link target)
  | linkedFile {target : Path} {next : Location}
      (hresolve : t.resolve rules.cwd (rules.fullPath way) = .ok next)
      (hdir : t.isDirectory next = false) (hleft : ¬rules.Admits way false) :
      rules.LeavesOut t chain way (.link target)
  | linkedDirectory {target : Path} {next : Location} (hfollow : rules.followLinks = true)
      (hresolve : t.resolve rules.cwd (rules.fullPath way) = .ok next)
      (hdir : t.isDirectory next = true) (hnew : next ∉ chain.map Stop.place)
      (hleft : ¬rules.Admits way true) : rules.LeavesOut t chain way (.link target)

theorem sight_of_leavesOut {e : Entry} (hentry : t.find? (n :: here.place) = some e)
    (h : rules.LeavesOut t chain (here.way ++ [n]) e) :
    sight t rules chain here n = .ok .nothing := by
  cases h with
  | file hleft => rw [sight_of_file hentry, if_neg hleft]
  | directory hleft =>
    rcases Except.ok_or_error (checkPath (rules.fullPath (here.way ++ [n]))) with
      ⟨_, hopens⟩ | ⟨fault, hfault⟩
    · rw [sight_of_directory hentry hopens, if_neg hleft]
    · rw [sight_of_unopened hentry hfault, if_neg hleft]
  | unfollowed hfollow hleft => simp [sight, hentry, hfollow, hleft]
  | linkedFile hresolve hdir hleft => rw [sight_of_link_to_file hentry hresolve hdir, if_neg hleft]
  | linkedDirectory hfollow hresolve hdir hnew hleft =>
    rw [sight_of_link_off_chain hentry hfollow hresolve hdir hnew, if_neg hleft]

theorem Rules.Inside.isDirectory (hdir : t.isDirectory place = true)
    (h : rules.Inside t place (here :: above)) : t.isDirectory here.place = true := by
  cases h with
  | root => exact hdir
  | directory _ hentry => exact (t.isDirectory_iff _).2 ⟨_, hentry⟩
  | link _ _ _ _ hnext => exact hnext

/-- By every way on which the walk comes to the entry at the mark, the exclude list leaves it out. -/
def Rules.Hides (rules : Rules) (t : FileTree) (place mark : Location) : Prop :=
  ∀ above here n e, rules.Inside (t.remove mark) place (here :: above) → n :: here.place = mark →
    t.find? mark = some e → rules.LeavesOut t (here :: above) (here.way ++ [n]) e

section Removing

variable (hne : mark ≠ []) (hroot : (t.remove mark).resolve rules.cwd rules.root = .ok place)
  (hdir : (t.remove mark).isDirectory place = true) (hunlinked : Unlinked t mark)
include hne hroot hdir hunlinked

/-- All other entries look the same. -/
theorem Rules.Inside.sight_eq (h : rules.Inside (t.remove mark) place (here :: above))
    (hother : n :: here.place ≠ mark) :
    sight t rules (here :: above) here n = sight (t.remove mark) rules (here :: above) here n := by
  have hhere := not_suffix_of_isDirectory_remove hne (h.isDirectory hdir)
  have hview := find?_remove_of_not_suffix (t := t) (not_suffix_cons hhere hother)
  rw [sight, sight, ← hview]
  cases hentry : (t.remove mark).find? (n :: here.place) with
  | none => rfl
  | some e =>
    cases e with
    | file => rfl
    | directory => rfl
    | link target =>
      have hresolve := (h.reaches hroot).resolve_eq hne hroot hunlinked hentry
      rw [← fullPath_append_singleton] at hresolve
      simp only [← hresolve]
      cases hnext : (t.remove mark).resolve rules.cwd (rules.fullPath (here.way ++ [n])) with
      | error fault => rfl
      | ok next => simp only [isDirectory_remove_of_resolve hnext]

/-- The walk finds the same in a directory, whatever the directory has at the mark. -/
theorem Rules.Inside.result_visit_eq (hhides : rules.Hides t place mark) {names : List Name}
    (h : rules.Inside (t.remove mark) place (here :: above)) :
    (visit t rules above here names).result = (visit (t.remove mark) rules above here
      (names.filter fun n => n :: here.place ≠ mark)).result := by
  induction above, here, names using visit.induct t with
  | case1 above here => rw [List.filter_nil, visit, visit]
  | case2 above here n rest way hinside hrest =>
    rw [result_visit_cons, hrest h]
    by_cases hmark : n :: here.place = mark
    · have hsight : sight t rules (here :: above) here n = .ok .nothing := by
        cases hentry : t.find? (n :: here.place) with
        | none => exact sight_of_none hentry
        | some e => exact sight_of_leavesOut hentry (hhides _ _ _ _ h hmark (hmark ▸ hentry))
      rw [List.filter_cons_of_neg (by simpa using hmark), visitName, hsight]
      cases (visit (t.remove mark) rules above here _).result <;> rfl
    · have hname : visitName t rules above here n = visitName (t.remove mark) rules above here n := by
        rw [visitName, visitName, h.sight_eq hne hroot hdir hunlinked hmark]
        cases hsight : sight (t.remove mark) rules (here :: above) here n with
        | error failure => rfl
        | ok seen =>
          cases seen with
          | nothing => rfl
          | file => rfl
          | directory next =>
            have hnext := h.of_sight hsight
            have hsame := (h.sight_eq hne hroot hdir hunlinked hmark).trans hsight
            have hplace := not_suffix_of_isDirectory_remove hne (hnext.isDirectory hdir)
            simp only
            rw [hinside next (canEnter_of_sight hsame) hnext, names_remove hplace]
      rw [List.filter_cons_of_pos (by simpa using hmark), result_visit_cons, hname]

end Removing

/-! ### The whole walk -/

variable {cwd : Location} {root : Path} {lines : List (List Char)} {list : ExcludeList}
  {followLinks : Bool}

theorem walk_eq_of_hides (hroot : (t.remove mark).resolve cwd root = .ok place)
    (hdir : (t.remove mark).isDirectory place = true)
    (hlist : ExcludeList.ofLines root lines = .ok list) (hunlinked : Unlinked t mark)
    (hhides : Rules.Hides ⟨cwd, root, list, followLinks⟩ t place mark) :
    (t.walk cwd root lines followLinks).result =
      ((t.remove mark).walk cwd root lines followLinks).result := by
  by_cases hne : mark = []
  · simp [remove, hne]
  have hext := extends_remove t mark
  have hroot' := resolve_of_extends hext hroot
  have hdir' := hext.isDirectory hdir
  cases hinput : isStandardInput root with
  | true =>
    rw [result_walk_of_standardInput hroot hdir hlist hinput,
      result_walk_of_standardInput hroot' hdir' hlist hinput]
  | false =>
    have hplace := not_suffix_of_isDirectory_remove hne hdir
    rw [result_walk hroot hdir hlist hinput, result_walk hroot' hdir' hlist hinput,
      names_remove hplace, Rules.Inside.root.result_visit_eq hne hroot hdir hunlinked hhides]

/-- A walk that comes to no link to go through is where its names lead down from its root. -/
theorem Rules.Inside.place_eq
    (hstays : rules.followLinks = false ∨ ∀ q target, t.find? q ≠ some (.link target))
    (h : rules.Inside t place (here :: above)) :
    here.place = here.way.reverse ++ place ∧ ∀ n, rules.Open (here.way ++ [n]) := by
  generalize hchain : here :: above = chain at h
  induction h generalizing here above with
  | root =>
    cases hchain
    exact ⟨rfl, Rules.Open.singleton⟩
  | directory _ _ hadmits _ ih =>
    cases hchain
    obtain ⟨hplace, hopen⟩ := ih rfl
    exact ⟨place_cons hplace _, (hopen _).append_singleton fun _ => hadmits⟩
  | link _ hfollow hentry =>
    obtain hunfollowed | hnone := hstays
    · simp [hfollow] at hunfollowed
    · exact absurd hentry (hnone _ _)

/-- What the exclude list leaves out has no part in a walk if no other link resolves through it. A walk
that does not go through links comes to it by one way, if it comes to it; a walk through links may do so
by many, and must not be stopped by it if it is a link. -/
theorem walk_remove (hroot : (t.remove mark).resolve cwd root = .ok place)
    (hdir : (t.remove mark).isDirectory place = true)
    (hlist : ExcludeList.ofLines root lines = .ok list) (hunlinked : Unlinked t mark) :
    ((∀ way e, way.reverse ++ place = mark → t.find? mark = some e →
        Rules.Open ⟨cwd, root, list, false⟩ way →
        ¬Rules.Admits ⟨cwd, root, list, false⟩ way e.isDirectory) →
      (t.walk cwd root lines false).result = ((t.remove mark).walk cwd root lines false).result) ∧
    (Rules.Hides ⟨cwd, root, list, true⟩ t place mark →
      (t.walk cwd root lines true).result = ((t.remove mark).walk cwd root lines true).result) := by
  refine ⟨fun hleft => ?_, walk_eq_of_hides hroot hdir hlist hunlinked⟩
  apply walk_eq_of_hides hroot hdir hlist hunlinked
  intro above here n e hinside hmark hentry
  obtain ⟨hplace, hopen⟩ := hinside.place_eq (.inl rfl)
  have hadmits := hleft _ e ((place_cons hplace n).symm.trans hmark) hentry (hopen n)
  cases e with
  | file => exact .file hadmits
  | directory => exact .directory hadmits
  | link target => exact .unfollowed rfl hadmits

/-! ### One tree -/

theorem unlinked_of_not_link (hnone : ∀ q target, (t.remove mark).find? q ≠ some (.link target)) :
    Unlinked t mark := by
  intro n dir target hbelow hlink
  rw [← find?_remove_of_not_suffix hbelow] at hlink
  exact absurd hlink (hnone _ _)

/-- The directory `d` with a file `f` and a directory `e`, in which are a link that leads nowhere and one
that leads back. -/
def tangledTree : FileTree where
  entries :=
    [([Job.nameD], .directory 0o755), ([Job.nameE, Job.nameD], .directory 0o755),
      ([nameA, Job.nameE, Job.nameD], .link (.ofString "gone")),
      ([nameB, Job.nameE, Job.nameD], .link (.ofString "..")),
      ([Job.nameF, Job.nameD], .file 0o644 [])]
  distinct := by decide
  rooted := by simp

/-- With the directory `e` left out no walk is stopped by the links in it. -/
theorem walk_remove_tangled :
    (tangledTree.walk [] (.ofString "d") ["e/".toList] false).result =
      .ok [⟨.ofString "d/f", .ofString "f"⟩] ∧
    (tangledTree.walk [] (.ofString "d") ["e/".toList] true).result =
      .ok [⟨.ofString "d/f", .ofString "f"⟩] := by
  have hroot : (tangledTree.remove [Job.nameE, Job.nameD]).resolve [] (.ofString "d") =
      .ok [Job.nameD] := by cbv
  have hdir : (tangledTree.remove [Job.nameE, Job.nameD]).isDirectory [Job.nameD] = true := by cbv
  have hinput : isStandardInput (.ofString "d") = false := by cbv
  have hentry : tangledTree.find? [Job.nameE, Job.nameD] = some (.directory 0o755) := by cbv
  have hnone : ∀ q target,
      (tangledTree.remove [Job.nameE, Job.nameD]).find? q ≠ some (.link target) := by
    apply not_link_of_entries
    simp [tangledTree, remove]
  obtain ⟨list, hlist, hleft, hvisit⟩ : ∃ list,
      ExcludeList.ofLines (.ofString "d") ["e/".toList] = .ok list ∧
      list.verdict (Path.ofNames [Job.nameE]).bytes true = .ignore ∧
      ∀ followLinks, (visit (tangledTree.remove [Job.nameE, Job.nameD])
        ⟨[], .ofString "d", list, followLinks⟩ [] ⟨[Job.nameD], []⟩
        ((tangledTree.remove [Job.nameE, Job.nameD]).names [Job.nameD])).result =
        .ok [⟨.ofString "d/f", .ofString "f"⟩] := by
    refine ⟨_, by cbv, by cbv, ?_⟩
    intro followLinks
    cases followLinks
    · cbv
    · cbv
  have hwalk : ∀ followLinks,
      ((tangledTree.remove [Job.nameE, Job.nameD]).walk [] (.ofString "d") ["e/".toList]
        followLinks).result = .ok [⟨.ofString "d/f", .ofString "f"⟩] := by
    intro followLinks
    rw [result_walk hroot hdir hlist hinput, hvisit]
    simp [Except.map]
  obtain ⟨hunfollowed, hfollowed⟩ := walk_remove hroot hdir hlist (unlinked_of_not_link hnone)
  constructor
  · rw [hunfollowed, hwalk]
    intro way e hway he _ hadmits
    have hreverse : way.reverse = [Job.nameE] := List.append_cancel_right hway
    obtain rfl : way = [Job.nameE] := List.reverse_eq_iff.1 hreverse
    cases he.symm.trans hentry
    exact hadmits hleft
  · rw [hfollowed, hwalk]
    intro above here n e hinside hmark he
    -- Without the directory no link is there, and so the walk can only be at its root.
    obtain ⟨hplace, _⟩ := hinside.place_eq (.inr hnone)
    cases he.symm.trans hentry
    obtain ⟨rfl, hhere⟩ := List.cons.inj hmark
    obtain hway : here.way = [] := by simpa [hhere] using hplace
    rw [hway]
    exact .directory fun hadmits => hadmits hleft

/-! ### Entries that are seen -/

/-- The directory `d` with the file `f` in a directory `a`, to which a link `b` leads. -/
def aliasedTree : FileTree where
  entries :=
    [([Job.nameD], .directory 0o755), ([nameA, Job.nameD], .directory 0o755),
      ([nameB, Job.nameD], .link (.ofString "a")), ([Job.nameF, nameA, Job.nameD], .file 0o644 [])]
  distinct := by decide
  rooted := by simp

/-- The directory `d` with a file `f` and a link `a` that leads nowhere. -/
def danglingTree : FileTree where
  entries :=
    [([Job.nameD], .directory 0o755), ([nameA, Job.nameD], .link (.ofString "gone")),
      ([Job.nameF, Job.nameD], .file 0o644 [])]
  distinct := by decide
  rooted := by simp

/-- The link leads to the directory of the file, not through the file. -/
theorem unlinked_aliasedTree : Unlinked aliasedTree [Job.nameF, nameA, Job.nameD] := by
  intro n dir target _ hlink
  obtain ⟨⟨rfl, rfl⟩, _⟩ : (n = nameB ∧ dir = [Job.nameD]) ∧ target = .ofString "a" := by
    simpa [aliasedTree] using (aliasedTree.find?_eq_some_iff (List.cons_ne_nil n dir)).1 hlink
  have hfollow : (aliasedTree.remove [Job.nameF, nameA, Job.nameD]).follow true maxLinks [Job.nameD]
      [.name nameB] = .ok (.present [nameA, Job.nameD]) := by cbv
  exact (leads_of_follow hfollow).not_passes (by simp)

/-- A walk through links finds a file that the exclude list leaves out by one of its ways, if a link to
its directory leads to it by another. -/
theorem walk_aliasedTree : ∃ list, ExcludeList.ofLines (.ofString "d") ["/a/f".toList] = .ok list ∧
    list.verdict (Path.ofNames [nameA, Job.nameF]).bytes false = .ignore ∧
    ((aliasedTree.remove [Job.nameF, nameA, Job.nameD]).walk [] (.ofString "d") ["/a/f".toList]
      true).result = .ok [] ∧
    (aliasedTree.walk [] (.ofString "d") ["/a/f".toList] true).result =
      .ok [⟨.ofString "d/b/f", .ofString "b/f"⟩] := by
  have hroot : (aliasedTree.remove [Job.nameF, nameA, Job.nameD]).resolve [] (.ofString "d") =
      .ok [Job.nameD] := by cbv
  have hdir : (aliasedTree.remove [Job.nameF, nameA, Job.nameD]).isDirectory [Job.nameD] = true := by
    cbv
  have hext := extends_remove aliasedTree [Job.nameF, nameA, Job.nameD]
  have hinput : isStandardInput (.ofString "d") = false := by cbv
  obtain ⟨list, hlist, hleft, hwithout, hwith⟩ : ∃ list,
      ExcludeList.ofLines (.ofString "d") ["/a/f".toList] = .ok list ∧
      list.verdict (Path.ofNames [nameA, Job.nameF]).bytes false = .ignore ∧
      (visit (aliasedTree.remove [Job.nameF, nameA, Job.nameD]) ⟨[], .ofString "d", list, true⟩ []
        ⟨[Job.nameD], []⟩ ((aliasedTree.remove [Job.nameF, nameA, Job.nameD]).names
          [Job.nameD])).result = .ok [] ∧
      (visit aliasedTree ⟨[], .ofString "d", list, true⟩ [] ⟨[Job.nameD], []⟩
        (aliasedTree.names [Job.nameD])).result = .ok [⟨.ofString "d/b/f", .ofString "b/f"⟩] :=
    ⟨_, by cbv, by cbv, by cbv, by cbv⟩
  refine ⟨list, hlist, hleft, ?_, ?_⟩
  · rw [result_walk hroot hdir hlist hinput, hwithout]
    simp [Except.map]
  · rw [result_walk (resolve_of_extends hext hroot) (hext.isDirectory hdir) hlist hinput, hwith]
    simp [Except.map]

/-- It is stopped by a link that leads nowhere although the exclude list leaves out the only way to it. -/
theorem walk_danglingTree : ∃ list, ExcludeList.ofLines (.ofString "d") ["/a".toList] = .ok list ∧
    (∀ isDirectory, list.verdict (Path.ofNames [nameA]).bytes isDirectory = .ignore) ∧
    ((danglingTree.remove [nameA, Job.nameD]).walk [] (.ofString "d") ["/a".toList] true).result =
      .ok [⟨.ofString "d/f", .ofString "f"⟩] ∧
    (danglingTree.walk [] (.ofString "d") ["/a".toList] true).result =
      .error (openFailure (.ofString "d/a") .notFound) := by
  have hroot : (danglingTree.remove [nameA, Job.nameD]).resolve [] (.ofString "d") =
      .ok [Job.nameD] := by cbv
  have hdir : (danglingTree.remove [nameA, Job.nameD]).isDirectory [Job.nameD] = true := by cbv
  have hext := extends_remove danglingTree [nameA, Job.nameD]
  have hinput : isStandardInput (.ofString "d") = false := by cbv
  obtain ⟨list, hlist, hfile, hdirectory, hwithout, hwith⟩ : ∃ list,
      ExcludeList.ofLines (.ofString "d") ["/a".toList] = .ok list ∧
      list.verdict (Path.ofNames [nameA]).bytes false = .ignore ∧
      list.verdict (Path.ofNames [nameA]).bytes true = .ignore ∧
      (visit (danglingTree.remove [nameA, Job.nameD]) ⟨[], .ofString "d", list, true⟩ []
        ⟨[Job.nameD], []⟩ ((danglingTree.remove [nameA, Job.nameD]).names [Job.nameD])).result =
        .ok [⟨.ofString "d/f", .ofString "f"⟩] ∧
      (visit danglingTree ⟨[], .ofString "d", list, true⟩ [] ⟨[Job.nameD], []⟩
        (danglingTree.names [Job.nameD])).result =
        .error (openFailure (.ofString "d/a") .notFound) :=
    ⟨_, by cbv, by cbv, by cbv, by cbv, by cbv⟩
  refine ⟨list, hlist, ?_, ?_, ?_⟩
  · exact Bool.forall_bool.2 ⟨hfile, hdirectory⟩
  · rw [result_walk hroot hdir hlist hinput, hwithout]
    simp [Except.map]
  · rw [result_walk (resolve_of_extends hext hroot) (hext.isDirectory hdir) hlist hinput, hwith]
    rfl

/-- What the exclude list leaves out at a place through which no other link resolves can have a part in
a walk through links. -/
theorem exists_walk_remove_ne :
    (∃ list, ExcludeList.ofLines (.ofString "d") ["/a/f".toList] = .ok list ∧
      list.verdict (Path.ofNames [nameA, Job.nameF]).bytes false = .ignore ∧
      Unlinked aliasedTree [Job.nameF, nameA, Job.nameD] ∧
      (aliasedTree.walk [] (.ofString "d") ["/a/f".toList] true).result ≠
        ((aliasedTree.remove [Job.nameF, nameA, Job.nameD]).walk [] (.ofString "d")
          ["/a/f".toList] true).result) ∧
    ∃ list, ExcludeList.ofLines (.ofString "d") ["/a".toList] = .ok list ∧
      (∀ isDirectory, list.verdict (Path.ofNames [nameA]).bytes isDirectory = .ignore) ∧
      Unlinked danglingTree [nameA, Job.nameD] ∧
      (danglingTree.walk [] (.ofString "d") ["/a".toList] true).result ≠
        ((danglingTree.remove [nameA, Job.nameD]).walk [] (.ofString "d") ["/a".toList]
          true).result := by
  obtain ⟨list, hlist, hleft, hwithout, hwith⟩ := walk_aliasedTree
  obtain ⟨other, hother, hboth, hwithout', hwith'⟩ := walk_danglingTree
  refine ⟨⟨list, hlist, hleft, unlinked_aliasedTree, ?_⟩, other, hother, hboth, ?_, ?_⟩
  · rw [hwith, hwithout]
    simp
  · apply unlinked_of_not_link
    apply not_link_of_entries
    simp [danglingTree, remove]
  · rw [hwith', hwithout']
    simp

end AssetBake.Walk
