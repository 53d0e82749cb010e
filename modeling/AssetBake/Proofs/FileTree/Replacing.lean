import AssetBake.FileTree.Replace
import AssetBake.Proofs.FileTree.Following

/-!
# Failed replacements

Making directories adds directories and changes nothing else. A file is staged under a name that no
entry has, so a replacement that fails is undone by removing it, and only the new directories stay.
-/

namespace AssetBake

/-- A path, or one that its parents lead up to. -/
inductive Path.AtOrAbove : Path → Path → Prop
  | here (p : Path) : AtOrAbove p p
  | above {p parent q : Path} (hparent : p.parent? = some parent) (h : AtOrAbove parent q) :
      AtOrAbove p q

namespace FileTree

variable {t t' t'' : FileTree} {cwd dir place : Location} {p : Path} {made made' : Location → Prop}

/-! ### Trees that have grown -/

/-- Another tree differs from the tree only by new directories at places of a kind. -/
structure Grows (t t' : FileTree) (made : Location → Prop) : Prop where
  host : t'.host = t.host
  view : ∀ place, t'.find? place = t.find? place ∨
    t.find? place = none ∧ t'.find? place = some (.directory t.host.directoryMode) ∧ made place

theorem Grows.refl (t : FileTree) (made : Location → Prop) : Grows t t made :=
  ⟨rfl, fun _ => .inl rfl⟩

theorem Grows.of_find?_eq (hhost : t'.host = t.host) (h : ∀ place, t'.find? place = t.find? place) :
    Grows t t' made :=
  ⟨hhost, fun place => .inl (h place)⟩

theorem Grows.imp (h : Grows t t' made) (himp : ∀ place, made place → made' place) :
    Grows t t' made' :=
  ⟨h.host, fun place =>
    (h.view place).imp id fun ⟨hfree, hnew, hmade⟩ => ⟨hfree, hnew, himp place hmade⟩⟩

theorem Grows.trans (h : Grows t t' made) (h' : Grows t' t'' made) : Grows t t'' made := by
  refine ⟨h'.host.trans h.host, fun place => ?_⟩
  rcases h'.view place with hsame' | ⟨hfree', hnew', hmade'⟩
  · rw [hsame']
    exact h.view place
  · rcases h.view place with hsame | ⟨_, hnew, _⟩
    · rw [h.host] at hnew'
      exact .inr ⟨hsame ▸ hfree', hnew', hmade'⟩
    · cases hfree'.symm.trans hnew

theorem Grows.extends (h : Grows t t' made) : Extends t t' := by
  intro place e he
  rcases h.view place with hsame | ⟨hfree, _⟩
  · rw [hsame, he]
  · cases hfree.symm.trans he

/-- A tree that has grown has the files and links of the tree and no others. -/
theorem Grows.find?_eq_some_iff (h : Grows t t' made) {e : Entry} (he : e.isDirectory = false) :
    t'.find? place = some e ↔ t.find? place = some e := by
  rcases h.view place with hsame | ⟨hfree, hnew, _⟩
  · rw [hsame]
  · rw [hfree, hnew]
    constructor
    · intro heq
      cases heq
      cases he
    · intro heq
      cases heq

theorem find?_put_of_ne {at' q : Location} (hne : q ≠ at') (e : Entry) :
    (t.put at' e).find? q = t.find? q := by
  by_cases hput : t.CanPut at'
  · rw [find?_put hput, if_neg hne]
  · rw [put_of_not_canPut hput]

theorem grows_put_directory (hfree : t.find? place = none) (hput : t.CanPut place)
    (hmade : made place) : Grows t (t.put place (.directory t.host.directoryMode)) made := by
  refine ⟨host_put .., fun q => ?_⟩
  rw [find?_put hput]
  by_cases hq : q = place
  · subst hq
    exact .inr ⟨hfree, by simp, hmade⟩
  · exact .inl (if_neg hq)

/-! ### Making directories -/

theorem makeDirectory_eq_ok_iff :
    t.makeDirectory cwd p = .ok t' ↔ checkPath p = .ok () ∧ ∃ name dir,
      Leads t false maxLinks (startOf cwd p) p.bareSteps (.absent name dir) ∧
      t.ask (.makeDirectory (name :: dir)) = .ok () ∧
      t' = t.put (name :: dir) (.directory t.host.directoryMode) := by
  simp only [makeDirectory, ← follow_eq_ok_iff]
  cases checkPath p with
  | error fault => simp
  | ok =>
    cases t.follow false maxLinks (startOf cwd p) p.bareSteps with
    | error fault => simp
    | ok spot =>
      cases spot with
      | present => simp
      | absent name dir =>
        simp only [Except.ok_bind, Except.bind_eq_ok_iff, Except.pure_eq, Except.ok.injEq,
          Spot.absent.injEq, true_and]
        constructor
        · rintro ⟨⟨⟩, hask, rfl⟩
          exact ⟨name, dir, ⟨rfl, rfl⟩, hask, rfl⟩
        · rintro ⟨_, _, ⟨rfl, rfl⟩, hask, rfl⟩
          exact ⟨(), hask, rfl⟩

/-- The places that a path and those above it lead to. -/
def OnTheWay (t : FileTree) (cwd : Location) (p : Path) (place : Location) : Prop :=
  ∃ q, Path.AtOrAbove p q ∧ t.resolve cwd q = .ok place

theorem OnTheWay.of_extends (hext : Extends t t') (h : OnTheWay t cwd p place) :
    OnTheWay t' cwd p place := by
  obtain ⟨q, hq, hresolve⟩ := h
  exact ⟨q, hq, resolve_of_extends hext hresolve⟩

theorem OnTheWay.of_parent {parent : Path} (hparent : p.parent? = some parent)
    (h : OnTheWay t cwd parent place) : OnTheWay t cwd p place := by
  obtain ⟨q, hq, hresolve⟩ := h
  exact ⟨q, .above hparent hq, hresolve⟩

/-- A new directory is what its path leads to afterwards. -/
theorem grows_of_makeDirectory (h : t.makeDirectory cwd p = .ok t') :
    Grows t t' (OnTheWay t' cwd p) := by
  obtain ⟨hcheck, name, dir, hleads, _, rfl⟩ := makeDirectory_eq_ok_iff.1 h
  obtain ⟨hfree, hput⟩ := hleads.canPut
  refine grows_put_directory hfree hput ⟨p, .here p, resolve_eq_ok_iff.2 ⟨hcheck, ?_⟩⟩
  have hext := (grows_put_directory hfree hput (Eq.refl (name :: dir))).extends
  have hdir : (t.put (name :: dir) (.directory t.host.directoryMode)).isDirectory (name :: dir) =
      true :=
    (isDirectory_iff _ _).2 ⟨_, by rw [find?_put hput, if_pos rfl]⟩
  refine hleads.to_directory hext hdir fun c hc => ?_
  split at hc
  · exact List.mem_singleton.1 hc
  · cases hc

/-- Only directories are made, at places that the path or one above it leads to afterwards. -/
theorem grows_makeDirectories (t : FileTree) (cwd : Location) (p : Path) :
    Grows t (t.makeDirectories cwd p).1 (OnTheWay (t.makeDirectories cwd p).1 cwd p) := by
  fun_induction makeDirectories t cwd p with
  | case1 => exact .refl _ _
  | case2 p _ made hmade => exact grows_of_makeDirectory hmade
  | case3 => exact .refl _ _
  | case4 p _ parent hparent _ t' fault hrun _ ih =>
    rw [hrun] at ih
    exact ih.imp fun _ => .of_parent hparent
  | case5 p _ parent hparent _ t' hrun made hmade _ ih =>
    rw [hrun] at ih
    have hlast := grows_of_makeDirectory hmade
    exact (ih.imp fun _ h => (h.of_parent hparent).of_extends hlast.extends).trans hlast
  | case6 p _ parent hparent _ t' hrun fault _ _ ih =>
    rw [hrun] at ih
    exact ih.imp fun _ => .of_parent hparent
  | case7 => exact .refl _ _

/-! ### Staging -/

/-- What lies below a free place is free. -/
theorem find?_eq_none_of_suffix {q : Location} (hfree : t.find? place = none) (h : place <:+ q) :
    t.find? q = none := by
  induction q with
  | nil =>
    rw [List.suffix_nil.1 h] at hfree
    exact hfree
  | cons n up ih =>
    rcases List.suffix_cons_iff.1 h with rfl | h
    · exact hfree
    · have hup := ih h
      rw [Option.eq_none_iff_forall_ne_some]
      intro e he
      rcases (t.rooted _ ((t.find?_eq_some_iff (by simp)).1 he)).2 with hroot | ⟨mode, hmode⟩
      · rw [show up = [] from hroot] at hup
        cases hup
      · by_cases hne : up = []
        · rw [hne] at hup
          cases hup
        · cases hup.symm.trans ((t.find?_eq_some_iff hne).2 hmode)

theorem foldl_max_le_iff {l : List Nat} {a bound : Nat} :
    l.foldl max a ≤ bound ↔ a ≤ bound ∧ ∀ b ∈ l, b ≤ bound := by
  induction l generalizing a with
  | nil => simp
  | cons b l ih => rw [List.foldl_cons, ih, Nat.max_le, List.forall_mem_cons, and_assoc]

theorem length_le_longestName {places : List Location} {name : Name}
    (h : name :: dir ∈ places) : name.bytes.length ≤ longestName places := by
  have hall := (foldl_max_le_iff.1 (Nat.le_refl (longestName places))).2
  exact hall _ (List.mem_map.2 ⟨name :: dir, h, rfl⟩)

theorem find?_stagingName (t : FileTree) (dir : Location) :
    t.find? (t.stagingName :: dir) = none := by
  rw [Option.eq_none_iff_forall_ne_some]
  intro e he
  have hmem := (t.find?_eq_some_iff (by simp)).1 he
  have hplace : t.stagingName :: dir ∈ t.entries.map (·.1) := List.mem_map.2 ⟨_, hmem, rfl⟩
  have hlength := length_le_longestName hplace
  simp [stagingName, stagingBytes] at hlength
  omega

theorem host_stageAndRename (t : FileTree) (cwd dir : Location) (p : Path) (content : List UInt8) :
    (t.stageAndRename cwd dir p content).1.host = t.host := by
  simp only [stageAndRename]
  split <;> simp

/-- A replacement that fails leaves everything as it was. -/
theorem find?_of_stageAndRename_error {content : List UInt8} {fault : ReplaceFault}
    (h : t.stageAndRename cwd dir p content = (t', .error fault)) (q : Location) :
    t'.find? q = t.find? q := by
  simp only [stageAndRename] at h
  split at h
  · cases h
    rw [find?_remove _ (by simp)]
    split
    · next hbelow => exact (find?_eq_none_of_suffix (find?_stagingName t dir) hbelow).symm
    · next hbelow =>
      have hne : q ≠ t.stagingName :: dir := by
        rintro rfl
        exact hbelow (List.suffix_refl _)
      rw [find?_put_of_ne hne, find?_put_of_ne hne]
  · cases h

/-- A replacement that fails leaves nothing behind but directories on the way to the file. -/
theorem grows_of_replaceFile_error {content : List UInt8} {fault : ReplaceFault}
    (h : t.replaceFile cwd p content = (t', .error fault)) :
    Grows t t' (OnTheWay t' cwd (parentOf p)) := by
  have hmade := grows_makeDirectories t cwd (parentOf p)
  simp only [replaceFile] at h
  split at h
  · next hrun =>
    cases h
    rwa [hrun] at hmade
  · next made hrun =>
    rw [hrun] at hmade
    split at h
    · cases h
      exact hmade
    · next dir _ =>
      have hhost : t'.host = made.host := by
        rw [← host_stageAndRename made cwd dir p content, h]
      have hundone : Grows made t' (OnTheWay t' cwd (parentOf p)) :=
        .of_find?_eq hhost (find?_of_stageAndRename_error h)
      exact (hmade.imp fun _ => .of_extends hundone.extends).trans hundone

theorem grows_of_writeIfChanged_error {content : List UInt8} {fault : ReplaceFault}
    (h : t.writeIfChanged cwd p content = (t', .error fault)) :
    Grows t t' (OnTheWay t' cwd (parentOf p)) := by
  rw [writeIfChanged] at h
  split at h
  · cases h
  · split at h
    · next hrun =>
      cases h
      exact grows_of_replaceFile_error hrun
    · cases h

end FileTree

end AssetBake
