import AssetBake.Proofs.Path.Names
import AssetBake.Walk
import Mathlib

/-!
# What a walk meets

A walk goes down from directory to directory and meets files, and what it cannot go past. The relation
`Meets` says so without order; a run finds each file that is met once if nothing stops it, and fails
with something that is met otherwise.
-/

namespace AssetBake

/-! ### The names in a directory -/

namespace FileTree

variable {t : FileTree} {place : Location} {n : Name}

theorem mem_names_iff : n ∈ t.names place ↔ ∃ e, t.find? (n :: place) = some e := by
  have hne : n :: place ≠ [] := List.cons_ne_nil n place
  simp only [names, List.mem_filterMap, t.find?_eq_some_iff hne]
  constructor
  · rintro ⟨⟨at', e⟩, hmem, hname⟩
    cases at' with
    | nil => simp at hname
    | cons m up =>
      simp only [Option.ite_none_right_eq_some, Option.some.injEq] at hname
      obtain ⟨rfl, rfl⟩ := hname
      exact ⟨e, hmem⟩
  · rintro ⟨e, hmem⟩
    exact ⟨(n :: place, e), hmem, by simp⟩

theorem nodup_names (t : FileTree) (place : Location) : (t.names place).Nodup := by
  have hdistinct : t.entries.Pairwise fun a b => a.1 ≠ b.1 := List.pairwise_map.1 t.distinct
  refine List.Pairwise.filterMap _ (fun a b hab n hn m hm hsame => hab ?_) hdistinct
  obtain ⟨_ | ⟨x, up⟩, e⟩ := a
  · simp at hn
  obtain ⟨_ | ⟨y, down⟩, e'⟩ := b
  · simp at hm
  simp only [Option.ite_none_right_eq_some, Option.some.injEq] at hn hm
  rw [hn.1, hm.1, hn.2, hm.2, hsame]

end FileTree

namespace Walk

variable {t : FileTree} {rules : Rules} {chain above : List Stop} {here : Stop} {n : Name}
  {way : List Name} {isDirectory : Bool}

/-! ### One entry -/

/-- The exclude list lets the walk see what some names lead to. -/
def Rules.Admits (rules : Rules) (way : List Name) (isDirectory : Bool) : Prop :=
  rules.exclude.verdict (Path.ofNames way).bytes isDirectory ≠ .ignore

instance : Decidable (rules.Admits way isDirectory) :=
  inferInstanceAs (Decidable (_ ≠ _))

theorem result_admit :
    ( rules.admit way isDirectory).result = .ok (decide (rules.Admits way isDirectory)) := by
  unfold Rules.admit
  by_cases h : rules.exclude.verdict (Path.ofNames way).bytes isDirectory = .ignore
  · simp [Rules.Admits, h]
  · simp [Rules.Admits, h]

/-- What an entry is to a walk, and the place of the directory if it enters one. -/
inductive Sight
  | nothing
  | file
  | directory (next : Location)

def Finding.sight : Finding t chain here.place → Sight
  | .nothing => .nothing
  | .file => .file
  | .directory next _ => .directory next

/-- What the walk sees of an entry of the directory `here`. -/
def sight (t : FileTree) (rules : Rules) (chain : List Stop) (here : Stop) (n : Name) :
    Except Failure Sight :=
  let way := here.way ++ [n]
  let path := rules.fullPath way
  match t.find? (n :: here.place) with
  | none => .ok .nothing
  | some (.file ..) => .ok (if rules.Admits way false then .file else .nothing)
  | some (.directory _) =>
    if rules.Admits way true then
      match FileTree.checkPath path with
      | .error fault => .error (openFailure path fault)
      | .ok () => .ok (.directory (n :: here.place))
    else .ok .nothing
  | some (.link _) =>
    if rules.followLinks then
      match t.resolve rules.cwd path with
      | .error fault => .error (openFailure path fault)
      | .ok next =>
        if t.isDirectory next then
          match chain.find? fun stop => stop.place = next with
          | some ancestor => .error (loopFailure path (rules.fullPath ancestor.way))
          | none => .ok (if rules.Admits way true then .directory next else .nothing)
        else .ok (if rules.Admits way false then .file else .nothing)
    else if rules.Admits way false then
      match t.resolve rules.cwd path with
      | .error fault => .error (unresolvedLink path fault)
      | .ok next => .ok (if t.isDirectory next then .nothing else .file)
    else .ok .nothing

theorem sight_look :
    (look t rules chain here n).result.map Finding.sight = sight t rules chain here n := by
  unfold look sight
  split
  case h_1 h =>
    simp only [h]
    rfl
  case h_2 h =>
    simp only [h, Traced.result_bind, result_admit, Except.ok_bind]
    by_cases hadmits : rules.Admits (here.way ++ [n]) false
    · simp [hadmits, Except.map, Finding.sight]
    · simp [hadmits, Except.map, Finding.sight]
  case h_3 h =>
    simp only [h, Traced.result_bind, result_admit, Except.ok_bind]
    by_cases hadmits : rules.Admits (here.way ++ [n]) true
    · cases FileTree.checkPath (rules.fullPath (here.way ++ [n])) with
      | error fault => simp [hadmits, Except.map]
      | ok => simp [hadmits, Except.map, Finding.sight]
    · simp [hadmits, Except.map, Finding.sight]
  case h_4 h =>
    simp only [h]
    cases t.resolve rules.cwd (rules.fullPath (here.way ++ [n])) with
    | error fault =>
      by_cases hfollow : rules.followLinks = true
      · simp [hfollow, Except.map]
      · by_cases hadmits : rules.Admits (here.way ++ [n]) false
        · simp [hfollow, result_admit, hadmits, Except.map]
        · simp [hfollow, result_admit, hadmits, Except.map, Finding.sight]
    | ok next =>
      by_cases hfollow : rules.followLinks = true
      · by_cases hdir : t.isDirectory next = true
        · simp only [hfollow, if_true, hdir, dif_pos]
          split
          · next hloop => simp [hloop, Except.map]
          · next hloop =>
            by_cases hadmits : rules.Admits (here.way ++ [n]) true
            · simp [hloop, result_admit, hadmits, Except.map, Finding.sight]
            · simp [hloop, result_admit, hadmits, Except.map, Finding.sight]
        · by_cases hadmits : rules.Admits (here.way ++ [n]) false
          · simp [hfollow, hdir, result_admit, hadmits, Except.map, Finding.sight]
          · simp [hfollow, hdir, result_admit, hadmits, Except.map, Finding.sight]
      · by_cases hadmits : rules.Admits (here.way ++ [n]) false
        · by_cases hdir : t.isDirectory next = true
          · simp [hfollow, hdir, result_admit, hadmits, Except.map, Finding.sight]
          · simp [hfollow, hdir, result_admit, hadmits, Except.map, Finding.sight]
        · simp [hfollow, result_admit, hadmits, Except.map, Finding.sight]

/-! ### Files and obstacles -/

/-- Inside the directory `here`, by its entry `n`, the walk meets at the end of some names a file, or
something that it cannot go past. -/
inductive Meets (t : FileTree) (rules : Rules) :
    List Stop → Stop → Name → List Name → Option Failure → Prop
  | file {above : List Stop} {here : Stop} {n : Name}
      (h : sight t rules (here :: above) here n = .ok .file) :
      Meets t rules above here n (here.way ++ [n]) none
  | stuck {above : List Stop} {here : Stop} {n : Name} {failure : Failure}
      (h : sight t rules (here :: above) here n = .error failure) :
      Meets t rules above here n (here.way ++ [n]) (some failure)
  | inside {above : List Stop} {here : Stop} {n m : Name} {next : Location} {way : List Name}
      {met : Option Failure} (h : sight t rules (here :: above) here n = .ok (.directory next))
      (hrest : Meets t rules (here :: above) ⟨next, here.way ++ [n]⟩ m way met) :
      Meets t rules above here n way met

theorem exists_find?_of_sight {seen : Except Failure Sight} (h : sight t rules chain here n = seen)
    (hseen : seen ≠ .ok .nothing) : ∃ e, t.find? (n :: here.place) = some e := by
  refine Option.isSome_iff_exists.1 (Option.isSome_iff_ne_none.2 fun hnone => hseen ?_)
  rw [← h, sight, hnone]

theorem Meets.exists_find? {met : Option Failure} (h : Meets t rules above here n way met) :
    ∃ e, t.find? (n :: here.place) = some e := by
  cases h with
  | file h => exact exists_find?_of_sight h (by simp)
  | stuck h => exact exists_find?_of_sight h (by simp)
  | inside h => exact exists_find?_of_sight h (by simp)

theorem meets_iff {met : Option Failure} : Meets t rules above here n way met ↔
    match sight t rules (here :: above) here n with
    | .error failure => way = here.way ++ [n] ∧ met = some failure
    | .ok .nothing => False
    | .ok .file => way = here.way ++ [n] ∧ met = none
    | .ok (.directory next) =>
      ∃ m ∈ t.names next, Meets t rules (here :: above) ⟨next, here.way ++ [n]⟩ m way met := by
  constructor
  · intro h
    cases h with
    | file h => simp only [h, and_self]
    | stuck h => simp only [h, and_self]
    | inside h hrest =>
      simp only [h]
      exact ⟨_, FileTree.mem_names_iff.2 hrest.exists_find?, hrest⟩
  · intro h
    split at h
    · next hsight =>
      obtain ⟨rfl, rfl⟩ := h
      exact .stuck hsight
    · exact h.elim
    · next hsight =>
      obtain ⟨rfl, rfl⟩ := h
      exact .file hsight
    · next hsight =>
      obtain ⟨m, _, hm⟩ := h
      exact .inside hsight hm

/-- What is met by an entry lies behind the name of that entry. -/
theorem Meets.isPrefix {met : Option Failure} (h : Meets t rules above here n way met) :
    here.way ++ [n] <+: way := by
  induction h with
  | file => exact List.prefix_refl _
  | stuck => exact List.prefix_refl _
  | inside _ _ ih => exact (List.prefix_append _ _).trans ih

/-- Some ways that lead to just the files met by some entries, each once, where nothing else is
met. -/
structure Covers (t : FileTree) (rules : Rules) (above : List Stop) (here : Stop)
    (names : List Name) (ways : List (List Name)) : Prop where
  nodup : ways.Nodup
  mem_iff : ∀ way, way ∈ ways ↔ ∃ n ∈ names, Meets t rules above here n way none
  clear : ∀ n ∈ names, ∀ way failure, ¬Meets t rules above here n way (some failure)

theorem Covers.nil : Covers t rules above here [] [] where
  nodup := List.nodup_nil
  mem_iff := by simp
  clear := by simp

theorem Covers.singleton {ways : List (List Name)} (hnodup : ways.Nodup)
    (hmeets : ∀ way met, Meets t rules above here n way met ↔ met = none ∧ way ∈ ways) :
    Covers t rules above here [n] ways where
  nodup := hnodup
  mem_iff := by simp [hmeets]
  clear := by simp [hmeets]

/-- The ways behind one entry come before those behind others. -/
theorem Covers.cons {names : List Name} {ways more : List (List Name)} (hn : n ∉ names)
    (hfirst : Covers t rules above here [n] ways) (hrest : Covers t rules above here names more) :
    Covers t rules above here (n :: names) (ways ++ more) where
  nodup := by
    refine List.nodup_append.2 ⟨hfirst.nodup, hrest.nodup, ?_⟩
    rintro way hway _ hmore rfl
    obtain ⟨m, hm, hmeets⟩ := (hfirst.mem_iff way).1 hway
    obtain ⟨k, hk, hother⟩ := (hrest.mem_iff way).1 hmore
    rw [List.mem_singleton.1 hm] at hmeets
    have hsame := List.prefix_of_prefix_length_le hmeets.isPrefix hother.isPrefix (by simp)
    have heq := hsame.eq_of_length (by simp)
    have hnk : n = k := by simpa using heq
    exact hn (hnk ▸ hk)
  mem_iff way := by
    rw [List.mem_append, hfirst.mem_iff, hrest.mem_iff]
    simp
  clear := by
    intro m hm
    rcases List.mem_cons.1 hm with rfl | hm
    · exact hfirst.clear m (List.mem_singleton_self m)
    · exact hrest.clear m hm

/-- The files behind one entry. -/
def visitName (t : FileTree) (rules : Rules) (above : List Stop) (here : Stop) (n : Name) :
    Except Failure (List Source) :=
  match sight t rules (here :: above) here n with
  | .error failure => .error failure
  | .ok .nothing => .ok []
  | .ok .file => .ok [rules.source (here.way ++ [n])]
  | .ok (.directory next) =>
    (visit t rules (here :: above) ⟨next, here.way ++ [n]⟩ (t.names next)).result

theorem result_visit_cons (names : List Name) :
    (visit t rules above here (n :: names)).result = (do
      let found ← visitName t rules above here n
      let more ← (visit t rules above here names).result
      return found ++ more) := by
  rw [visit, visitName, ← sight_look]
  simp only [Traced.result_bind]
  cases (look t rules (here :: above) here n).result with
  | error failure => rfl
  | ok finding => cases finding <;> rfl

/-- What a run over some entries gives: the files met by them, or something that is met. -/
def Accounts (t : FileTree) (rules : Rules) (above : List Stop) (here : Stop) (names : List Name) :
    Except Failure (List Source) → Prop
  | .ok found => ∃ ways, found = ways.map rules.source ∧ Covers t rules above here names ways
  | .error failure => ∃ n ∈ names, ∃ way, Meets t rules above here n way (some failure)

theorem canEnter_of_sight {next : Location}
    (h : sight t rules (here :: above) here n = .ok (.directory next)) :
    CanEnter t (here :: above) here.place next := by
  rw [← sight_look] at h
  obtain ⟨finding, _, hfinding⟩ := Except.map_eq_ok_iff.1 h
  cases finding with
  | directory _ enter =>
    cases hfinding
    exact enter
  | nothing => cases hfinding
  | file => cases hfinding

theorem accounts_visitName
    (hinside : ∀ next, CanEnter t (here :: above) here.place next →
      Accounts t rules (here :: above) ⟨next, here.way ++ [n]⟩ (t.names next)
        (visit t rules (here :: above) ⟨next, here.way ++ [n]⟩ (t.names next)).result) :
    Accounts t rules above here [n] (visitName t rules above here n) := by
  have hmeets := @meets_iff t rules above here n
  rw [visitName]
  cases hsight : sight t rules (here :: above) here n with
  | error failure => exact ⟨n, List.mem_singleton_self n, _, .stuck hsight⟩
  | ok seen =>
    simp only [hsight] at hmeets
    cases seen with
    | nothing => exact ⟨[], rfl, .singleton List.nodup_nil (by simp [hmeets])⟩
    | file =>
      refine ⟨[here.way ++ [n]], rfl, .singleton (List.nodup_singleton _) fun way met => ?_⟩
      rw [hmeets, List.mem_singleton, and_comm]
    | directory next =>
      have hnext := hinside next (canEnter_of_sight hsight)
      simp only
      cases hrun : (visit t rules (here :: above) ⟨next, here.way ++ [n]⟩ (t.names next)).result with
      | error failure =>
        rw [hrun] at hnext
        obtain ⟨m, _, way, hm⟩ := hnext
        exact ⟨n, List.mem_singleton_self n, way, .inside hsight hm⟩
      | ok found =>
        rw [hrun] at hnext
        obtain ⟨ways, rfl, hcovers⟩ := hnext
        refine ⟨ways, rfl, .singleton hcovers.nodup fun way met => ?_⟩
        rw [hmeets]
        cases met with
        | none => simp [hcovers.mem_iff]
        | some failure => simpa using fun m hm => hcovers.clear m hm way failure

/-- A run over the entries of a directory gives the files met there, each once, or it fails with
something that is met. -/
theorem accounts_visit (above : List Stop) (here : Stop) (names : List Name) (hnames : names.Nodup) :
    Accounts t rules above here names (visit t rules above here names).result := by
  induction above, here, names using visit.induct t with
  | case1 above here =>
    rw [visit]
    exact ⟨[], rfl, .nil⟩
  | case2 above here n rest way hinside hrest =>
    obtain ⟨hn, hrest'⟩ := List.nodup_cons.1 hnames
    have hfirst := accounts_visitName fun next hnext => hinside next hnext (t.nodup_names next)
    have hmore := hrest hrest'
    rw [result_visit_cons]
    cases hrun : visitName t rules above here n with
    | error failure =>
      rw [hrun] at hfirst
      obtain ⟨m, hm, way, hmeets⟩ := hfirst
      rw [List.mem_singleton.1 hm] at hmeets
      exact ⟨n, List.mem_cons_self, way, hmeets⟩
    | ok found =>
      rw [hrun] at hfirst
      obtain ⟨ways, rfl, hcovers⟩ := hfirst
      cases hrun' : (visit t rules above here rest).result with
      | error failure =>
        rw [hrun'] at hmore
        obtain ⟨m, hm, way, hmeets⟩ := hmore
        exact ⟨m, List.mem_cons_of_mem n hm, way, hmeets⟩
      | ok more =>
        rw [hrun'] at hmore
        obtain ⟨others, rfl, hothers⟩ := hmore
        exact ⟨ways ++ others, by simp, hcovers.cons hn hothers⟩

/-! ### The whole walk -/

theorem inOrder_trans (a b c : Source) (hab : inOrder a b = true) (hbc : inOrder b c = true) :
    inOrder a c = true := by
  simp only [inOrder, decide_eq_true_eq] at hab hbc ⊢
  exact String.le_trans hab hbc

theorem inOrder_total (a b : Source) : (inOrder a b || inOrder b a) = true := by
  simp only [inOrder, Bool.or_eq_true, decide_eq_true_eq]
  exact String.le_total _ _

variable {cwd place : Location} {root : Path} {lines : List (List Char)} {list : ExcludeList}
  {followLinks : Bool}

/-- A walk begins at a directory, with an exclude list that can be made. -/
theorem exists_of_walk {sources : List Source}
    (h : (t.walk cwd root lines followLinks).result = .ok sources) :
    ∃ place list, t.resolve cwd root = .ok place ∧ t.isDirectory place = true ∧
      ExcludeList.ofLines root lines = .ok list := by
  rw [FileTree.walk] at h
  cases hroot : t.resolve cwd root with
  | error fault => simp [hroot] at h
  | ok place =>
    simp only [hroot] at h
    split at h
    · next hdir =>
      cases hlist : ExcludeList.ofLines root lines with
      | error fault => simp [hlist] at h
      | ok list => exact ⟨place, list, rfl, hdir, rfl⟩
    · simp at h

theorem result_walk_of_standardInput (hroot : t.resolve cwd root = .ok place)
    (hdir : t.isDirectory place = true) (hlist : ExcludeList.ofLines root lines = .ok list)
    (hinput : isStandardInput root = true) :
    (t.walk cwd root lines followLinks).result = .ok [] := by
  rw [FileTree.walk, hroot]
  simp [hdir, hlist, hinput]

theorem result_walk (hroot : t.resolve cwd root = .ok place) (hdir : t.isDirectory place = true)
    (hlist : ExcludeList.ofLines root lines = .ok list) (hinput : isStandardInput root = false) :
    (t.walk cwd root lines followLinks).result =
      (visit t ⟨cwd, root, list, followLinks⟩ [] ⟨place, []⟩ (t.names place)).result.map
        fun found => found.mergeSort inOrder := by
  rw [FileTree.walk, hroot]
  simp only [hdir, hlist, hinput, if_true, Bool.false_eq_true, if_false, Traced.result_bind]
  cases (visit t ⟨cwd, root, list, followLinks⟩ [] ⟨place, []⟩ (t.names place)).result <;> rfl

/-- The files of a walk in their order, and the ways to them. -/
structure Walked (t : FileTree) (rules : Rules) (place : Location) (sources : List Source)
    (ways : List (List Name)) : Prop where
  perm : sources.Perm (ways.map rules.source)
  sorted : sources.Pairwise fun a b => inOrder a b = true
  covers : Covers t rules [] ⟨place, []⟩ (t.names place) ways

theorem exists_walked (hroot : t.resolve cwd root = .ok place) (hdir : t.isDirectory place = true)
    (hlist : ExcludeList.ofLines root lines = .ok list) (hinput : isStandardInput root = false)
    {sources : List Source} (h : (t.walk cwd root lines followLinks).result = .ok sources) :
    ∃ ways, Walked t ⟨cwd, root, list, followLinks⟩ place sources ways := by
  rw [result_walk hroot hdir hlist hinput] at h
  obtain ⟨found, hrun, hfound⟩ := Except.map_eq_ok_iff.1 h
  have haccounts := @accounts_visit t ⟨cwd, root, list, followLinks⟩ [] ⟨place, []⟩ (t.names place)
    (t.nodup_names place)
  rw [hrun] at haccounts
  obtain ⟨ways, hways, hcovers⟩ := haccounts
  refine ⟨ways, ?_, ?_, hcovers⟩
  · rw [← hfound, ← hways]
    exact List.mergeSort_perm _ _
  · rw [← hfound]
    exact List.pairwise_mergeSort inOrder_trans inOrder_total found

theorem exists_meets_of_walk (hroot : t.resolve cwd root = .ok place)
    (hdir : t.isDirectory place = true) (hlist : ExcludeList.ofLines root lines = .ok list)
    (hinput : isStandardInput root = false) {failure : Failure}
    (h : (t.walk cwd root lines followLinks).result = .error failure) :
    ∃ n way, Meets t ⟨cwd, root, list, followLinks⟩ [] ⟨place, []⟩ n way (some failure) := by
  rw [result_walk hroot hdir hlist hinput, Except.map_eq_error_iff] at h
  have haccounts := @accounts_visit t ⟨cwd, root, list, followLinks⟩ [] ⟨place, []⟩ (t.names place)
    (t.nodup_names place)
  rw [h] at haccounts
  obtain ⟨n, _, way, hmeets⟩ := haccounts
  exact ⟨n, way, hmeets⟩

end Walk

end AssetBake
