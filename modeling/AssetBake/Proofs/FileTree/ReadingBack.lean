import AssetBake.Proofs.FileTree.Replacing

/-!
# Replaced files

A replacement that succeeds makes the missing directories, puts the file where the path leads then, with
a link at its end not followed, and changes nothing else. The path leads to the new content afterwards,
unless it ran through the very link that was replaced.
-/

namespace AssetBake.FileTree

variable {t t' : FileTree} {cwd dir : Location} {p : Path} {content : List UInt8} {followLast : Bool}
  {links : Nat} {at' temporary : Location} {steps : List Component} {spot : Spot}

/-- The place that a spot is at, be it free or not. -/
def Spot.place : Spot → Location
  | .present at' => at'
  | .absent n dir => n :: dir

/-- The tree once the directories on the way to a file are made. -/
def withParents (t : FileTree) (cwd : Location) (p : Path) : FileTree :=
  (t.makeDirectories cwd (parentOf p)).1

theorem grows_withParents (t : FileTree) (cwd : Location) (p : Path) :
    Grows t (t.withParents cwd p) fun _ => True :=
  (grows_makeDirectories t cwd (parentOf p)).imp fun _ _ => trivial

/-- A file with the content stands at a spot that is no directory, and nothing else has changed. -/
structure Replaced (t t' : FileTree) (spot : Spot) (content : List UInt8) : Prop where
  plain : t.isDirectory spot.place = false
  find : ∃ mode, ∀ q, t'.find? q = if q = spot.place then some (.file mode content) else t.find? q

/-! ### The staged file -/

/-- Another tree has one more file. -/
def Stages (t t' : FileTree) (temporary : Location) : Prop :=
  t.find? temporary = none ∧ ∃ mode content, ∀ q, t'.find? q =
    if q = temporary then some (.file mode content) else t.find? q

theorem Stages.find?_eq (h : Stages t t' temporary) {q : Location} {e : Entry}
    (he : t'.find? q = some e) (hfile : e.isFile = false) : t.find? q = some e := by
  obtain ⟨_, mode, content, hview⟩ := h
  rw [hview] at he
  split at he
  · cases he
    cases hfile
  · exact he

theorem Stages.extends (h : Stages t t' temporary) : Extends t t' := by
  obtain ⟨hfree, mode, content, hview⟩ := h
  intro q e he
  rw [hview, if_neg]
  · exact he
  · rintro rfl
    cases hfree.symm.trans he

theorem Stages.isDirectory_eq (h : Stages t t' temporary) (q : Location) :
    t'.isDirectory q = t.isDirectory q := by
  obtain ⟨hfree, mode, content, hview⟩ := h
  rw [isDirectory, isDirectory, hview]
  split
  · next hq =>
    rw [hq, hfree]
    rfl
  · rfl

/-- A way that does not end at the staged file does not need it. -/
theorem Leads.of_stages (hstages : Stages t t' temporary)
    (h : Leads t' followLast links at' steps spot) :
    ∃ spot', Leads t followLast links at' steps spot' ∧ spot'.place = spot.place := by
  obtain ⟨hfree, _, _, hview⟩ := id hstages
  induction h with
  | done => exact ⟨_, .done, rfl⟩
  | stay hstep hdir _ ih =>
    obtain ⟨spot', hrest, hplace⟩ := ih
    exact ⟨spot', .stay hstep (hstages.isDirectory_eq _ ▸ hdir) hrest, hplace⟩
  | up hdir _ ih =>
    obtain ⟨spot', hrest, hplace⟩ := ih
    exact ⟨spot', .up (hstages.isDirectory_eq _ ▸ hdir) hrest, hplace⟩
  | free hdir hlength hnone =>
    refine ⟨_, .free (hstages.isDirectory_eq _ ▸ hdir) hlength ?_, rfl⟩
    rw [hview] at hnone
    split at hnone
    · cases hnone
    · exact hnone
  | @enter links at' n e rest spot hdir hlength hentry hlink hrest ih =>
    have hdir := hstages.isDirectory_eq _ ▸ hdir
    rw [hview] at hentry
    split at hentry
    · next hplace =>
      -- The staged file is no directory, so the way ends here.
      rw [← hplace] at hfree
      have hnodir : t'.isDirectory (n :: at') = false := by
        rw [hstages.isDirectory_eq, isDirectory, hfree]
        rfl
      cases hrest with
      | done => exact ⟨_, .free hdir hlength hfree, rfl⟩
      | _ => simp_all
    · obtain ⟨spot', hrest, hplace⟩ := ih
      exact ⟨spot', .enter hdir hlength hentry hlink hrest, hplace⟩
  | lastLink hdir hlength hlink hlast =>
    have hlink := hstages.find?_eq hlink rfl
    exact ⟨_, .lastLink (hstages.isDirectory_eq _ ▸ hdir) hlength hlink hlast, rfl⟩
  | link hdir hlength hlink hgo htarget _ ih =>
    obtain ⟨spot', hrest, hplace⟩ := ih
    have hlink := hstages.find?_eq hlink rfl
    exact ⟨spot', .link (hstages.isDirectory_eq _ ▸ hdir) hlength hlink hgo htarget hrest, hplace⟩

theorem locate_eq_ok_iff : t.locate cwd followLast p = .ok spot ↔
    checkPath p = .ok () ∧ Leads t followLast maxLinks (startOf cwd p) p.steps spot := by
  rw [locate, ← follow_eq_ok_iff]
  cases checkPath p <;> simp

theorem bareSteps_eq_steps (h : p.endsInSlash = false) : p.bareSteps = p.steps := by
  rw [Path.steps, h]
  simp

/-- A file can be renamed to a path that leads to something else than a directory. -/
theorem exists_spot_of_renameTarget {place : Location} (h : t.renameTarget cwd p = .ok place) :
    p.steps ≠ [] ∧ ∃ spot, t.locate cwd false p = .ok spot ∧ spot.place = place ∧
      t.isDirectory place = false := by
  rw [renameTarget] at h
  split at h
  · cases h
  simp only [Except.bind_eq_ok_iff] at h
  obtain ⟨⟨⟩, hcheck, spot, hfollow, h⟩ := h
  split at h
  · next n hlast =>
    split at h
    · cases h
    next hend =>
    rw [bareSteps_eq_steps (by simpa using hend)] at hfollow hlast
    refine ⟨List.ne_nil_of_mem (List.mem_of_getLast? hlast), spot,
      locate_eq_ok_iff.2 ⟨hcheck, leads_of_follow hfollow⟩, ?_⟩
    cases spot with
    | absent name dir =>
      cases h
      exact ⟨rfl, (leads_of_follow hfollow).canPut.2.2⟩
    | present at' =>
      simp only at h
      split at h
      · cases h
      · next hdir =>
        cases h
        exact ⟨rfl, by simpa using hdir⟩
  · cases h

/-! ### The replacement -/

/-- Where a path leads in a tree with one more file it leads without it. -/
theorem locate_of_stages (hstages : Stages t t' temporary)
    (h : t'.locate cwd followLast p = .ok spot) :
    ∃ spot', t.locate cwd followLast p = .ok spot' ∧ spot'.place = spot.place := by
  obtain ⟨hcheck, hleads⟩ := locate_eq_ok_iff.1 h
  obtain ⟨spot', hleads', hplace⟩ := hleads.of_stages hstages
  exact ⟨spot', locate_eq_ok_iff.2 ⟨hcheck, hleads'⟩, hplace⟩

/-- What is no directory can be replaced where a path leads. -/
theorem canPut_of_locate (hsteps : p.steps ≠ []) (h : t.locate cwd followLast p = .ok spot)
    (hplain : t.isDirectory spot.place = false) : t.CanPut spot.place := by
  obtain ⟨_, hleads⟩ := locate_eq_ok_iff.1 h
  cases spot with
  | absent n dir => exact hleads.canPut.2
  | present at' =>
    obtain ⟨e, he, _⟩ := hleads.exists_entry (.inl hsteps)
    cases at' with
    | nil => cases hplain
    | cons n dir => exact ⟨isDirectory_of_find? he, hplain⟩

theorem stages_put (hfree : t.find? temporary = none) (hdir : t.isDirectory temporary.tail = true)
    (mode mode' : Nat) (content : List UInt8) :
    Stages t ((t.put temporary (.file mode [])).put temporary (.file mode' content)) temporary := by
  have hput : t.CanPut temporary := ⟨hdir, by simp [isDirectory, hfree]⟩
  have hne : temporary.tail ≠ temporary := by
    obtain ⟨n, up, rfl⟩ := List.exists_cons_of_ne_nil hput.ne_nil
    simp
  have hput' : (t.put temporary (.file mode [])).CanPut temporary := by
    refine ⟨?_, ?_⟩
    · rw [isDirectory, find?_put hput, if_neg hne]
      exact hdir
    · simp [isDirectory, find?_put hput, Entry.isDirectory]
  refine ⟨hfree, mode', content, fun q => ?_⟩
  rw [find?_put hput', find?_put hput]
  split <;> rfl

theorem Stages.find?_remove (h : Stages t t' temporary) (q : Location) :
    (t'.remove temporary).find? q = t.find? q := by
  obtain ⟨hfree, mode, content, hview⟩ := h
  have hne : temporary ≠ [] := by
    rintro rfl
    cases hfree
  rw [FileTree.find?_remove _ hne, hview]
  split
  · next hbelow => exact (find?_eq_none_of_suffix hfree hbelow).symm
  · next hbelow =>
    rw [if_neg]
    rintro rfl
    exact hbelow (List.suffix_refl _)

theorem canPut_of_view (hview : ∀ q, t'.find? q = t.find? q) (h : t.CanPut at') : t'.CanPut at' := by
  rw [CanPut, isDirectory_of_view hview, isDirectory_of_view hview]
  exact h

theorem renameTarget_of_destination {place : Location} {written : FileTree}
    (h : destination t written cwd dir p = .ok place) : written.renameTarget cwd p = .ok place := by
  simp only [destination, Except.bind_eq_ok_iff] at h
  obtain ⟨_, _, _, _, target, htarget, _, _, hplace⟩ := h
  cases hplace
  exact Except.mapError_eq_ok_iff.1 htarget

theorem replacementMode_of_resolve_error {fault : PathFault} (h : t.resolve cwd p = .error fault) :
    t.replacementMode cwd p = t.host.fileMode := by
  rw [replacementMode, stat, h, Except.error_bind]

/-- The staged file does not change what mode it is to get. -/
theorem replacementMode_put (hfree : t.find? temporary = none)
    (hdir : t.isDirectory temporary.tail = true) (bytes : List UInt8) :
    (t.put temporary (.file t.host.fileMode bytes)).replacementMode cwd p =
      t.replacementMode cwd p := by
  have hput : t.CanPut temporary := ⟨hdir, by simp [isDirectory, hfree]⟩
  have hview := find?_put hput (.file t.host.fileMode bytes)
  have hstages : Stages t (t.put temporary (.file t.host.fileMode bytes)) temporary :=
    ⟨hfree, t.host.fileMode, bytes, hview⟩
  cases hresolve : t.resolve cwd p with
  | ok place =>
    obtain ⟨e, he, _⟩ := exists_entry_of_resolve hresolve
    have hresolve' := resolve_of_extends hstages.extends hresolve
    rw [replacementMode, replacementMode, stat_eq_ok_iff.2 ⟨place, hresolve, he⟩,
      stat_eq_ok_iff.2 ⟨place, hresolve', hstages.extends _ _ he⟩, host_put]
  | error fault =>
    rw [replacementMode_of_resolve_error hresolve]
    cases hresolve' : (t.put temporary (.file t.host.fileMode bytes)).resolve cwd p with
    | error fault => rw [replacementMode_of_resolve_error hresolve', host_put]
    | ok place =>
      -- What could not be reached before can only be the staged file.
      obtain ⟨e, he, hlink⟩ := exists_entry_of_resolve hresolve'
      obtain ⟨hcheck, hleads⟩ := resolve_eq_ok_iff.1 hresolve'
      obtain ⟨spot, hbefore, hplace⟩ := hleads.of_stages hstages
      cases spot with
      | present at' =>
        cases hplace
        cases (resolve_eq_ok_iff.2 ⟨hcheck, hbefore⟩).symm.trans hresolve
      | absent n dir =>
        cases hplace
        have hfound := he
        rw [hview] at hfound
        split at hfound
        · cases hfound
          rw [replacementMode, stat_eq_ok_iff.2 ⟨_, hresolve', he⟩]
        · cases hbefore.canPut.1.symm.trans hfound

/-- A file that is staged and renamed replaces what is at the spot that the path leads to, with the
mode of what the path led to. -/
theorem find?_of_stageAndRename_ok (hdir : t.isDirectory dir = true)
    (h : t.stageAndRename cwd dir p content = (t', .ok ())) :
    ∃ spot, t.locate cwd false p = .ok spot ∧ t.isDirectory spot.place = false ∧
      ∀ q, t'.find? q =
        if q = spot.place then some (.file (t.replacementMode cwd p) content) else t.find? q := by
  simp only [stageAndRename] at h
  split at h
  · cases h
  next place hdestination =>
  cases h
  have hrename := renameTarget_of_destination hdestination
  have hstages := stages_put (find?_stagingName t dir) hdir t.host.fileMode
    ((t.put (t.stagingName :: dir) (.file t.host.fileMode [])).replacementMode cwd p) content
  obtain ⟨hsteps, staged, hstaged, rfl, hplain⟩ := exists_spot_of_renameTarget hrename
  obtain ⟨spot, hspot, hplace⟩ := locate_of_stages hstages hstaged
  rw [hstages.isDirectory_eq, ← hplace] at hplain
  have hput := canPut_of_view hstages.find?_remove (canPut_of_locate hsteps hspot hplain)
  refine ⟨spot, hspot, hplain, fun q => ?_⟩
  rw [← hplace, find?_put hput, hstages.find?_remove,
    replacementMode_put (find?_stagingName t dir) hdir]

theorem isDirectory_of_stagingDirectory {parent : Path}
    (h : t.stagingDirectory cwd parent = .ok dir) : t.isDirectory dir = true := by
  rw [stagingDirectory] at h
  split at h
  · cases h
  obtain ⟨found, _, h⟩ := Except.bind_eq_ok_iff.1 h
  split at h
  · next hdir =>
    obtain ⟨_, _, heq⟩ := Except.bind_eq_ok_iff.1 h
    cases heq
    exact hdir
  · cases h

/-- A replacement that succeeds replaces what the path leads to once the missing directories are
made. -/
theorem find?_of_replaceFile (h : t.replaceFile cwd p content = (t', .ok ())) :
    ∃ spot, (t.withParents cwd p).locate cwd false p = .ok spot ∧
      (t.withParents cwd p).isDirectory spot.place = false ∧
      ∀ q, t'.find? q =
        if q = spot.place then some (.file ((t.withParents cwd p).replacementMode cwd p) content)
        else (t.withParents cwd p).find? q := by
  simp only [replaceFile] at h
  split at h
  · cases h
  next made hmade =>
  rw [withParents, hmade]
  split at h
  · cases h
  next dir hstaging =>
  exact find?_of_stageAndRename_ok (isDirectory_of_stagingDirectory hstaging) h

theorem replaced_of_replaceFile (h : t.replaceFile cwd p content = (t', .ok ())) :
    ∃ spot, (t.withParents cwd p).locate cwd false p = .ok spot ∧
      Replaced (t.withParents cwd p) t' spot content := by
  obtain ⟨spot, hspot, hplain, hview⟩ := find?_of_replaceFile h
  exact ⟨spot, hspot, hplain, _, hview⟩

/-! ### Reading the path afterwards -/

/-- A path ends at a link. -/
def EndsAtLink (t : FileTree) (cwd : Location) (p : Path) : Prop :=
  ∃ at' target, t.locate cwd false p = .ok (.present at') ∧ t.find? at' = some (.link target)

/-- A path runs through the very link that it ends at: without that link it does not lead to where
the link was. -/
def RunsThroughItself (t : FileTree) (cwd : Location) (p : Path) : Prop :=
  ∃ n dir target, t.locate cwd false p = .ok (.present (n :: dir)) ∧
    t.find? (n :: dir) = some (.link target) ∧
    (t.remove (n :: dir)).locate cwd false p ≠ .ok (.absent n dir)

theorem contentAt_eq_ok_iff : t.contentAt cwd p = .ok content ↔
    ∃ place mode, t.resolve cwd p = .ok place ∧ t.find? place = some (.file mode content) := by
  rw [contentAt, Except.bind_eq_ok_iff]
  constructor
  · rintro ⟨e, he, hcontent⟩
    obtain ⟨place, hplace, hfind⟩ := stat_eq_ok_iff.1 he
    cases e with
    | file mode _ =>
      cases hcontent
      exact ⟨place, mode, hplace, hfind⟩
    | link => cases hcontent
    | directory => cases hcontent
  · rintro ⟨place, mode, hplace, hfind⟩
    exact ⟨_, stat_eq_ok_iff.2 ⟨place, hplace, hfind⟩, rfl⟩

theorem holds_eq_true_iff : t.holds cwd p content = true ↔ t.contentAt cwd p = .ok content := by
  rw [holds]
  cases t.contentAt cwd p <;> simp

/-- A way that ends at no link is the same if links at the end are followed. -/
theorem Leads.of_not_link (h : Leads t false links at' steps (.present dir))
    (hlink : ∀ target, t.find? dir ≠ some (.link target)) :
    Leads t true links at' steps (.present dir) := by
  generalize hspot : Spot.present dir = spot at h ⊢
  induction h with
  | done => exact .done
  | stay hstep hdir _ ih => exact .stay hstep hdir (ih hspot)
  | up hdir _ ih => exact .up hdir (ih hspot)
  | free => cases hspot
  | enter hdir hlength hentry hother _ ih => exact .enter hdir hlength hentry hother (ih hspot)
  | lastLink _ _ hfound _ =>
    cases hspot
    exact absurd hfound (hlink _)
  | link hdir hlength hfound _ htarget _ ih =>
    exact .link hdir hlength hfound (.inr rfl) htarget (ih hspot)

theorem not_endsAtLink {result : Except PathFault Spot} (h : t.locate cwd false p = result)
    (hresult : ∀ at', result ≠ .ok (.present at')) : ¬t.EndsAtLink cwd p := by
  rintro ⟨at', target, hspot, _⟩
  exact hresult at' (h.symm.trans hspot)

theorem RunsThroughItself.endsAtLink (h : t.RunsThroughItself cwd p) : t.EndsAtLink cwd p := by
  obtain ⟨n, dir, target, hspot, hlink, _⟩ := h
  exact ⟨_, target, hspot, hlink⟩

/-- A path leads to the file that replaced what it led to, unless it runs through itself. -/
theorem locate_of_replaced (hspot : t.locate cwd false p = .ok spot)
    (h : Replaced t t' spot content) (hruns : ¬t.RunsThroughItself cwd p) (followLast : Bool) :
    t'.locate cwd followLast p = .ok (.present spot.place) := by
  obtain ⟨hcheck, hleads⟩ := locate_eq_ok_iff.1 hspot
  obtain ⟨hplain, mode, hview⟩ := h
  have hnew : t'.find? spot.place = some (.file mode content) := by rw [hview, if_pos rfl]
  -- A way to the free place in a part of the old tree leads to the new file.
  have hfree : ∀ {part : FileTree} {n : Name} {up : Location}, Extends part t' →
      t'.find? (n :: up) = some (.file mode content) → part.locate cwd false p = .ok (.absent n up) →
      t'.locate cwd followLast p = .ok (.present (n :: up)) := by
    intro part n up hext hentry hlocate
    have hto := (locate_eq_ok_iff.1 hlocate).2.to_entry (Bool.eq_false_or_eq_true followLast) hext
      hentry (by simp) fun _ => .done
    rw [List.append_nil] at hto
    exact locate_eq_ok_iff.2 ⟨hcheck, hto⟩
  cases spot with
  | absent n up =>
    refine hfree (fun q e he => ?_) hnew hspot
    rw [hview, if_neg]
    · exact he
    · rintro rfl
      cases hleads.canPut.1.symm.trans he
  | present at' =>
    obtain ⟨e, he, _⟩ := hleads.exists_entry (.inl (steps_ne_nil_of_checkPath hcheck))
    rw [Spot.place] at hnew hview hplain ⊢
    cases e with
    | directory => simp [isDirectory, he, Entry.isDirectory] at hplain
    | file was old =>
      have hkeeps : Keeps t t' := by
        intro q e' he'
        by_cases hq : q = at'
        · subst hq
          cases he.symm.trans he'
          exact .inr ⟨rfl, mode, content, hnew⟩
        · exact .inl (by rw [hview, if_neg hq, he'])
      refine locate_eq_ok_iff.2 ⟨hcheck, ?_⟩
      cases followLast with
      | false => exact hleads.of_keeps hkeeps
      | true => exact (hleads.of_not_link (by simp [he])).of_keeps hkeeps
    | link target =>
      obtain ⟨n, up, rfl⟩ : ∃ n up, at' = n :: up := by
        apply List.exists_cons_of_ne_nil
        rintro rfl
        cases he
      have hwithout : (t.remove (n :: up)).locate cwd false p = .ok (.absent n up) :=
        not_not.1 fun hne => hruns ⟨n, up, target, hspot, he, hne⟩
      refine hfree (fun q e' he' => ?_) hnew hwithout
      rw [find?_remove _ (by simp)] at he'
      split at he'
      · cases he'
      · next hbelow =>
        rw [hview, if_neg, he']
        rintro rfl
        exact hbelow (List.suffix_refl _)

theorem resolve_of_replaced (hspot : t.locate cwd false p = .ok spot)
    (h : Replaced t t' spot content) (hruns : ¬t.RunsThroughItself cwd p) :
    t'.resolve cwd p = .ok spot.place :=
  resolve_eq_ok_iff.2 (locate_eq_ok_iff.1 (locate_of_replaced hspot h hruns true))

/-- A path that does not run through itself gives the content that was put there. -/
theorem contentAt_of_replaceFile (h : t.replaceFile cwd p content = (t', .ok ()))
    (hruns : ¬(t.withParents cwd p).RunsThroughItself cwd p) : t'.contentAt cwd p = .ok content := by
  obtain ⟨spot, hspot, hreplaced⟩ := replaced_of_replaceFile h
  obtain ⟨mode, hview⟩ := hreplaced.find
  exact contentAt_eq_ok_iff.2 ⟨spot.place, mode, resolve_of_replaced hspot hreplaced hruns,
    by rw [hview, if_pos rfl]⟩

/-! ### What a replacement changes -/

/-- A tree differs from another only by new directories, and by the file at one place, which was free or
had a file before. -/
structure Renews (t t' : FileTree) (target : Location) : Prop where
  old : t.find? target = none ∨ ∃ mode content, t.find? target = some (.file mode content)
  new : ∃ mode content, t'.find? target = some (.file mode content)
  others : ∀ q, q ≠ target → t'.find? q = t.find? q ∨
    t.find? q = none ∧ ∃ mode, t'.find? q = some (.directory mode)

theorem Renews.keeps {target : Location} (h : Renews t t' target) : Keeps t t' := by
  intro q e he
  by_cases hq : q = target
  · subst hq
    rcases h.old with hfree | ⟨mode, content, hfile⟩
    · cases hfree.symm.trans he
    · cases hfile.symm.trans he
      exact .inr ⟨rfl, h.new⟩
  · rcases h.others q hq with hsame | ⟨hfree, _⟩
    · exact .inl (hsame.trans he)
    · cases hfree.symm.trans he

/-- What is new is the file, or a directory. -/
theorem Renews.eq_or_directory {target q : Location} (h : Renews t t' target)
    (hfree : t.find? q = none) {e : Entry} (he : t'.find? q = some e) :
    q = target ∨ ∃ mode, e = .directory mode := by
  by_cases hq : q = target
  · exact .inl hq
  · rcases h.others q hq with hsame | ⟨_, mode, hmode⟩
    · cases (hsame.trans hfree).symm.trans he
    · exact .inr ⟨mode, Option.some.inj (he.symm.trans hmode)⟩

/-- A replacement at a path that ends at no link renews the file that the path leads to afterwards. -/
theorem renews_of_replaceFile (h : t.replaceFile cwd p content = (t', .ok ()))
    (hlink : ¬(t.withParents cwd p).EndsAtLink cwd p) :
    ∃ target, Renews t t' target ∧ t'.resolve cwd p = .ok target := by
  obtain ⟨spot, hspot, hreplaced⟩ := replaced_of_replaceFile h
  have hgrows := grows_withParents t cwd p
  obtain ⟨mode, hview⟩ := hreplaced.find
  refine ⟨spot.place, ⟨?_, ⟨mode, content, by rw [hview, if_pos rfl]⟩, fun q hq => ?_⟩,
    resolve_of_replaced hspot hreplaced fun hruns => hlink hruns.endsAtLink⟩
  · cases hbefore : t.find? spot.place with
    | none => exact .inl rfl
    | some e =>
      have hparents := hgrows.extends _ _ hbefore
      cases e with
      | file was old => exact .inr ⟨was, old, rfl⟩
      | directory =>
        have hplain := hreplaced.plain
        simp [isDirectory, hparents, Entry.isDirectory] at hplain
      | link target =>
        cases spot with
        | present at' => exact absurd ⟨at', target, hspot, hparents⟩ hlink
        | absent n dir =>
          have hfree := (locate_eq_ok_iff.1 hspot).2.canPut.1
          cases hfree.symm.trans hparents
  · rw [hview, if_neg hq]
    rcases hgrows.view q with hsame | ⟨hfree, hnew, _⟩
    · exact .inl hsame
    · exact .inr ⟨hfree, _, hnew⟩

end AssetBake.FileTree
