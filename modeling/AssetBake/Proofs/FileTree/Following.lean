import AssetBake.FileTree.Resolve
import AssetBake.Proofs.Fallible
import AssetBake.Proofs.Text.Pieces

/-!
# Where paths lead

The ways on which following steps succeeds, as a relation. A way to an entry is also one in every tree
that has all entries of the first, and a way to a free place leads to that place once a directory
stands there.
-/

namespace AssetBake.FileTree

variable {t t' : FileTree} {followLast : Bool} {links : Nat} {at' : Location}
  {steps rest tail : List Component} {spot : Spot} {n : Name} {dir : Location}

/-! ### Ways -/

/-- Steps lead from a place to a spot, with so many links to be followed at most. -/
inductive Leads (t : FileTree) (followLast : Bool) :
    Nat → Location → List Component → Spot → Prop
  | done {links : Nat} {at' : Location} : Leads t followLast links at' [] (.present at')
  | stay {links : Nat} {at' : Location} {step : Component} {rest : List Component} {spot : Spot}
      (hstep : step = .root ∨ step = .current) (hdir : t.isDirectory at' = true)
      (hrest : Leads t followLast links at' rest spot) :
      Leads t followLast links at' (step :: rest) spot
  | up {links : Nat} {at' : Location} {rest : List Component} {spot : Spot}
      (hdir : t.isDirectory at' = true) (hrest : Leads t followLast links at'.tail rest spot) :
      Leads t followLast links at' (.parent :: rest) spot
  | free {links : Nat} {at' : Location} {n : Name} (hdir : t.isDirectory at' = true)
      (hlength : n.bytes.length ≤ maxNameLength) (hfree : t.find? (n :: at') = none) :
      Leads t followLast links at' [.name n] (.absent n at')
  | enter {links : Nat} {at' : Location} {n : Name} {e : Entry} {rest : List Component}
      {spot : Spot} (hdir : t.isDirectory at' = true) (hlength : n.bytes.length ≤ maxNameLength)
      (hentry : t.find? (n :: at') = some e) (hlink : ∀ target, e ≠ .link target)
      (hrest : Leads t followLast links (n :: at') rest spot) :
      Leads t followLast links at' (.name n :: rest) spot
  | lastLink {links : Nat} {at' : Location} {n : Name} {target : Path}
      (hdir : t.isDirectory at' = true) (hlength : n.bytes.length ≤ maxNameLength)
      (hlink : t.find? (n :: at') = some (.link target)) (hlast : followLast = false) :
      Leads t followLast links at' [.name n] (.present (n :: at'))
  | link {links : Nat} {at' : Location} {n : Name} {target : Path} {rest : List Component}
      {spot : Spot} (hdir : t.isDirectory at' = true) (hlength : n.bytes.length ≤ maxNameLength)
      (hlink : t.find? (n :: at') = some (.link target)) (hgo : rest ≠ [] ∨ followLast = true)
      (htarget : target.bytes ≠ [])
      (hrest : Leads t followLast links (startOf at' target) (target.steps ++ rest) spot) :
      Leads t followLast (links + 1) at' (.name n :: rest) spot

theorem leads_of_follow (h : t.follow followLast links at' steps = .ok spot) :
    Leads t followLast links at' steps spot := by
  fun_induction follow t followLast links at' steps with
  | case1 =>
    cases h
    exact .done
  | case2 => cases h
  | case3 links at' rest hdir ih => exact .stay (.inl rfl) (by simpa using hdir) (ih h)
  | case4 links at' rest hdir ih => exact .stay (.inr rfl) (by simpa using hdir) (ih h)
  | case5 links at' rest hdir ih => exact .up (by simpa using hdir) (ih h)
  | case6 => cases h
  | case7 links at' rest hdir n hlength hfree hlast =>
    cases h
    rw [List.isEmpty_iff.1 hlast]
    exact .free (by simpa using hdir) (Nat.le_of_not_lt hlength) hfree
  | case8 => cases h
  | case9 links at' rest hdir n hlength target hlink hlast =>
    cases h
    rw [Bool.and_eq_true, List.isEmpty_iff] at hlast
    rw [hlast.1]
    exact .lastLink (by simpa using hdir) (Nat.le_of_not_lt hlength) hlink (by simpa using hlast.2)
  | case10 => cases h
  | case11 => cases h
  | case12 at' rest hdir n hlength target hlink hgo links htarget ih =>
    refine .link (by simpa using hdir) (Nat.le_of_not_lt hlength) hlink ?_ ?_ (ih h)
    · simpa [Classical.or_iff_not_imp_left] using hgo
    · simpa using htarget
  | case13 links at' rest hdir n hlength e hlink hentry ih =>
    exact .enter (by simpa using hdir) (Nat.le_of_not_lt hlength) hentry hlink (ih h)

theorem follow_of_leads (h : Leads t followLast links at' steps spot) :
    t.follow followLast links at' steps = .ok spot := by
  induction h with
  | done => rw [follow]
  | stay hstep hdir _ ih =>
    rcases hstep with rfl | rfl
    · rw [follow, hdir]
      exact ih
    · rw [follow, hdir]
      exact ih
  | up hdir _ ih =>
    rw [follow, hdir]
    exact ih
  | free hdir hlength hfree =>
    rw [follow, hdir]
    simp [Nat.not_lt.2 hlength, hfree]
  | @enter _ _ _ e _ _ hdir hlength hentry hlink _ ih =>
    rw [follow, hdir]
    cases e with
    | file => simpa [Nat.not_lt.2 hlength, hentry] using ih
    | directory => simpa [Nat.not_lt.2 hlength, hentry] using ih
    | link target => exact absurd rfl (hlink target)
  | lastLink hdir hlength hlink hlast =>
    rw [follow, hdir]
    simp [Nat.not_lt.2 hlength, hlink, hlast]
  | @link _ _ _ target rest _ hdir hlength hlink hgo htarget _ ih =>
    have hgo : (rest.isEmpty && !followLast) = false := by
      rcases hgo with hne | hlast
      · simp [hne]
      · simp [hlast]
    rw [follow, hdir]
    simpa [Nat.not_lt.2 hlength, hlink, hgo, htarget] using ih

theorem follow_eq_ok_iff :
    t.follow followLast links at' steps = .ok spot ↔ Leads t followLast links at' steps spot :=
  ⟨leads_of_follow, follow_of_leads⟩

/-- A free place that steps lead to lies in a directory. -/
theorem Leads.canPut (h : Leads t followLast links at' steps (.absent n dir)) :
    t.find? (n :: dir) = none ∧ t.CanPut (n :: dir) := by
  generalize hspot : Spot.absent n dir = spot at h
  induction h with
  | done => cases hspot
  | stay _ _ _ ih => exact ih hspot
  | up _ _ ih => exact ih hspot
  | free hdir _ hfree =>
    cases hspot
    exact ⟨hfree, hdir, by simp [isDirectory, hfree]⟩
  | enter _ _ _ _ _ ih => exact ih hspot
  | lastLink => cases hspot
  | link _ _ _ _ _ _ ih => exact ih hspot

/-! ### Where ways end -/

/-- What has an entry lies in a directory. -/
theorem isDirectory_of_find? {e : Entry} (h : t.find? (n :: dir) = some e) :
    t.isDirectory dir = true := by
  rcases (t.rooted _ ((t.find?_eq_some_iff (List.cons_ne_nil n dir)).1 h)).2 with hroot | ⟨mode, hmode⟩
  · rw [show dir = [] from hroot]
    rfl
  · by_cases hne : dir = []
    · rw [hne]
      rfl
    · exact (t.isDirectory_iff _).2 ⟨mode, (t.find?_eq_some_iff hne).2 hmode⟩

theorem isDirectory_tail (h : t.isDirectory at' = true) : t.isDirectory at'.tail = true := by
  cases at' with
  | nil => exact h
  | cons n dir =>
    obtain ⟨mode, hmode⟩ := (t.isDirectory_iff _).1 h
    exact isDirectory_of_find? hmode

theorem isDirectory_of_append {front : Location} {e : Entry} (hfront : front ≠ [])
    (h : t.find? (front ++ at') = some e) : t.isDirectory at' = true := by
  induction front generalizing e with
  | nil => exact absurd rfl hfront
  | cons n front ih =>
    have hdir := isDirectory_of_find? h
    cases front with
    | nil => exact hdir
    | cons m front =>
      obtain ⟨mode, hmode⟩ := (t.isDirectory_iff _).1 hdir
      exact ih (by simp) hmode

theorem isDirectory_startOf (target : Path) (h : t.isDirectory at' = true) :
    t.isDirectory (startOf at' target) = true := by
  unfold startOf
  split
  · rfl
  · exact h

/-- Steps are taken in a directory. -/
theorem Leads.isDirectory_start (hsteps : steps ≠ []) (h : Leads t followLast links at' steps spot) :
    t.isDirectory at' = true := by
  cases h with
  | done => exact absurd rfl hsteps
  | stay _ hdir => exact hdir
  | up hdir => exact hdir
  | free hdir => exact hdir
  | enter hdir => exact hdir
  | lastLink hdir => exact hdir
  | link hdir => exact hdir

/-- A way ends at an entry, which is no link if links at the end are followed. -/
theorem Leads.exists_entry {found : Location} (h : Leads t followLast links at' steps (.present found))
    (hstart : steps ≠ [] ∨ ∃ e, t.find? at' = some e ∧ ∀ target, e ≠ .link target) :
    ∃ e, t.find? found = some e ∧ (followLast = true → ∀ target, e ≠ .link target) := by
  have hentry : ∀ {place : Location}, t.isDirectory place = true →
      ∃ e, t.find? place = some e ∧ ∀ target, e ≠ .link target := by
    intro place hdir
    obtain ⟨mode, hmode⟩ := (t.isDirectory_iff _).1 hdir
    exact ⟨_, hmode, by simp⟩
  generalize hspot : Spot.present found = spot at h
  induction h with
  | done =>
    cases hspot
    obtain ⟨e, he, hlink⟩ := hstart.resolve_left (by simp)
    exact ⟨e, he, fun _ => hlink⟩
  | stay _ hdir _ ih => exact ih (.inr (hentry hdir)) hspot
  | up hdir _ ih => exact ih (.inr (hentry (isDirectory_tail hdir))) hspot
  | free => cases hspot
  | enter _ _ hfound hlink _ ih => exact ih (.inr ⟨_, hfound, hlink⟩) hspot
  | lastLink _ _ hlink hlast =>
    cases hspot
    exact ⟨_, hlink, fun hfollow => by simp [hlast] at hfollow⟩
  | link hdir _ _ _ _ _ ih => exact ih (.inr (hentry (isDirectory_startOf _ hdir))) hspot

theorem not_link_of_entries (h : ∀ e ∈ t.entries, ∀ target, e.2 ≠ .link target) (q : Location)
    (target : Path) : t.find? q ≠ some (.link target) := by
  cases q with
  | nil => simp
  | cons n up =>
    rw [Ne, t.find?_eq_some_iff (List.cons_ne_nil n up)]
    exact fun hmem => h _ hmem target rfl

/-! ### Growing trees -/

/-- Another tree has every entry of the tree, as it is. -/
def Extends (t t' : FileTree) : Prop :=
  ∀ place e, t.find? place = some e → t'.find? place = some e

theorem Extends.isDirectory (h : Extends t t') {place : Location}
    (hdir : t.isDirectory place = true) : t'.isDirectory place = true := by
  rw [isDirectory_iff] at hdir ⊢
  obtain ⟨mode, hmode⟩ := hdir
  exact ⟨mode, h place _ hmode⟩

/-- Another tree has every entry of the tree, but files may have changed. -/
def Keeps (t t' : FileTree) : Prop :=
  ∀ place e, t.find? place = some e →
    t'.find? place = some e ∨
      e.isFile = true ∧ ∃ mode content, t'.find? place = some (.file mode content)

theorem Extends.keeps (h : Extends t t') : Keeps t t' :=
  fun place e he => .inl (h place e he)

theorem Keeps.find?_eq_some (h : Keeps t t') {place : Location} {e : Entry}
    (he : t.find? place = some e) (hfile : e.isFile = false) : t'.find? place = some e :=
  (h place e he).resolve_right fun hchanged => by simp [hfile] at hchanged

theorem Keeps.isDirectory_eq (h : Keeps t t') {place : Location} {e : Entry}
    (he : t.find? place = some e) : t'.isDirectory place = t.isDirectory place := by
  rw [FileTree.isDirectory, FileTree.isDirectory, he]
  rcases h place e he with hsame | ⟨hfile, mode, content, hchanged⟩
  · rw [hsame]
  · rw [hchanged]
    cases e with
    | file => rfl
    | link => cases hfile
    | directory => cases hfile

theorem Keeps.isDirectory (h : Keeps t t') {place : Location} (hdir : t.isDirectory place = true) :
    t'.isDirectory place = true := by
  obtain ⟨mode, hmode⟩ := (isDirectory_iff _ _).1 hdir
  exact (h.isDirectory_eq hmode).trans hdir

/-- What leads to an entry still does in a tree that keeps all entries. -/
theorem Leads.of_keeps (hkeeps : Keeps t t') {found : Location}
    (h : Leads t followLast links at' steps (.present found)) :
    Leads t' followLast links at' steps (.present found) := by
  generalize hspot : Spot.present found = spot at h ⊢
  induction h with
  | done => exact .done
  | stay hstep hdir _ ih => exact .stay hstep (hkeeps.isDirectory hdir) (ih hspot)
  | up hdir _ ih => exact .up (hkeeps.isDirectory hdir) (ih hspot)
  | free => cases hspot
  | enter hdir hlength hentry hlink _ ih =>
    rcases hkeeps _ _ hentry with hsame | ⟨_, mode, content, hchanged⟩
    · exact .enter (hkeeps.isDirectory hdir) hlength hsame hlink (ih hspot)
    · exact .enter (hkeeps.isDirectory hdir) hlength hchanged (by simp) (ih hspot)
  | lastLink hdir hlength hlink hlast =>
    exact .lastLink (hkeeps.isDirectory hdir) hlength (hkeeps.find?_eq_some hlink rfl) hlast
  | link hdir hlength hlink hgo htarget _ ih =>
    exact .link (hkeeps.isDirectory hdir) hlength (hkeeps.find?_eq_some hlink rfl) hgo htarget
      (ih hspot)

theorem Leads.of_current (hdir : t.isDirectory at' = true) (htail : ∀ c ∈ tail, c = .current) :
    Leads t followLast links at' tail (.present at') := by
  induction tail with
  | nil => exact .done
  | cons c tail ih =>
    obtain ⟨hc, htail⟩ := List.forall_mem_cons.1 htail
    exact .stay (.inr hc) hdir (ih htail)

/-- What leads to a free place leads to what is put there, and on from there. Links at the end may be
followed then. -/
theorem Leads.to_entry {followLast' : Bool} (hlast : followLast' = true ∨ followLast' = followLast)
    (hext : Extends t t') {e : Entry} (hentry : t'.find? (n :: dir) = some e)
    (hlink : ∀ target, e ≠ .link target)
    (htail : ∀ links, Leads t' followLast' links (n :: dir) tail (.present (n :: dir)))
    (h : Leads t followLast links at' steps (.absent n dir)) :
    Leads t' followLast' links at' (steps ++ tail) (.present (n :: dir)) := by
  generalize hspot : Spot.absent n dir = spot at h
  induction h with
  | done => cases hspot
  | stay hstep hhere _ ih => exact .stay hstep (hext.isDirectory hhere) (ih hspot)
  | up hhere _ ih => exact .up (hext.isDirectory hhere) (ih hspot)
  | free hhere hlength _ =>
    cases hspot
    exact .enter (hext.isDirectory hhere) hlength hentry hlink (htail _)
  | enter hhere hlength hfound hother _ ih =>
    exact .enter (hext.isDirectory hhere) hlength (hext _ _ hfound) hother (ih hspot)
  | lastLink => cases hspot
  | @link _ _ _ _ rest _ hhere hlength hfound hgo htarget _ ih =>
    have hrest := ih hspot
    rw [List.append_assoc] at hrest
    have hgo : rest ++ tail ≠ [] ∨ followLast' = true := by
      rcases hgo with hne | hfollow
      · exact .inl (List.append_ne_nil_of_left_ne_nil hne tail)
      · exact .inr (hlast.elim id fun hsame => hsame.trans hfollow)
    exact .link (hext.isDirectory hhere) hlength (hext _ _ hfound) hgo htarget hrest

/-- What leads to a free place leads to the directory that is put there, with `.` behind it or not. -/
theorem Leads.to_directory (hext : Extends t t') (hdir : t'.isDirectory (n :: dir) = true)
    (htail : ∀ c ∈ tail, c = .current) (h : Leads t followLast links at' steps (.absent n dir)) :
    Leads t' true links at' (steps ++ tail) (.present (n :: dir)) := by
  obtain ⟨mode, hmode⟩ := (isDirectory_iff _ _).1 hdir
  exact h.to_entry (.inl rfl) hext hmode (by simp) fun _ => .of_current hdir htail

/-! ### Ways in parts -/

theorem Leads.eq {spot' : Spot} (h : Leads t followLast links at' steps spot)
    (h' : Leads t followLast links at' steps spot') : spot = spot' :=
  Except.ok.inj ((follow_of_leads h).symm.trans (follow_of_leads h'))

/-- A way may follow fewer links than it could. -/
theorem Leads.mono {links' : Nat} (h : Leads t followLast links at' steps spot)
    (hle : links ≤ links') : Leads t followLast links' at' steps spot := by
  induction h generalizing links' with
  | done => exact .done
  | stay hstep hdir _ ih => exact .stay hstep hdir (ih hle)
  | up hdir _ ih => exact .up hdir (ih hle)
  | free hdir hlength hfree => exact .free hdir hlength hfree
  | enter hdir hlength hentry hlink _ ih => exact .enter hdir hlength hentry hlink (ih hle)
  | lastLink hdir hlength hlink hlast => exact .lastLink hdir hlength hlink hlast
  | link hdir hlength hlink hgo htarget _ ih =>
    obtain ⟨more, rfl⟩ := Nat.exists_eq_add_of_le' (Nat.le_trans (Nat.le_add_left 1 _) hle)
    exact .link hdir hlength hlink hgo htarget (ih (Nat.le_of_succ_le_succ hle))

/-- The last steps of a way lead on from where the first ones end. -/
theorem Leads.split {front back : List Component} (hback : back ≠ [])
    (h : Leads t true links at' (front ++ back) spot) : ∃ links' mid, links' ≤ links ∧
      Leads t true links at' front (.present mid) ∧ Leads t true links' mid back spot := by
  generalize hsteps : front ++ back = steps at h
  induction h generalizing front with
  | done => exact absurd (List.append_eq_nil_iff.1 hsteps).2 hback
  | @stay links at' step rest spot hstep hdir hmore ih =>
    cases front with
    | nil =>
      obtain rfl : back = _ := hsteps
      exact ⟨links, at', Nat.le_refl _, .done, .stay hstep hdir hmore⟩
    | cons first front =>
      obtain ⟨rfl, hrest⟩ := List.cons.inj hsteps
      obtain ⟨links', mid, hle, hfront, hmid⟩ := ih hrest
      exact ⟨links', mid, hle, .stay hstep hdir hfront, hmid⟩
  | @up links at' rest spot hdir hmore ih =>
    cases front with
    | nil =>
      obtain rfl : back = _ := hsteps
      exact ⟨links, at', Nat.le_refl _, .done, .up hdir hmore⟩
    | cons first front =>
      obtain ⟨rfl, hrest⟩ := List.cons.inj hsteps
      obtain ⟨links', mid, hle, hfront, hmid⟩ := ih hrest
      exact ⟨links', mid, hle, .up hdir hfront, hmid⟩
  | @free links at' n hdir hlength hfree =>
    cases front with
    | nil =>
      obtain rfl : back = _ := hsteps
      exact ⟨links, at', Nat.le_refl _, .done, .free hdir hlength hfree⟩
    | cons first front =>
      exact absurd (List.append_eq_nil_iff.1 (List.cons.inj hsteps).2).2 hback
  | @enter links at' n e rest spot hdir hlength hentry hlink hmore ih =>
    cases front with
    | nil =>
      obtain rfl : back = _ := hsteps
      exact ⟨links, at', Nat.le_refl _, .done, .enter hdir hlength hentry hlink hmore⟩
    | cons first front =>
      obtain ⟨rfl, hrest⟩ := List.cons.inj hsteps
      obtain ⟨links', mid, hle, hfront, hmid⟩ := ih hrest
      exact ⟨links', mid, hle, .enter hdir hlength hentry hlink hfront, hmid⟩
  | lastLink _ _ _ hlast => cases hlast
  | @link links at' n target rest spot hdir hlength hlink hgo htarget hmore ih =>
    cases front with
    | nil =>
      obtain rfl : back = _ := hsteps
      exact ⟨links + 1, at', Nat.le_refl _, .done, .link hdir hlength hlink hgo htarget hmore⟩
    | cons first front =>
      obtain ⟨rfl, rfl⟩ := List.cons.inj hsteps
      obtain ⟨links', mid, hle, hfront, hmid⟩ := ih (List.append_assoc ..)
      exact ⟨links', mid, Nat.le_succ_of_le hle,
        .link hdir hlength hlink (.inr rfl) htarget hfront, hmid⟩

/-! ### Paths -/

theorem resolve_eq_ok_iff {cwd place : Location} {p : Path} :
    t.resolve cwd p = .ok place ↔
      checkPath p = .ok () ∧ Leads t true maxLinks (startOf cwd p) p.steps (.present place) := by
  rw [resolve, resolveFrom, ← follow_eq_ok_iff]
  cases checkPath p with
  | error fault => simp
  | ok =>
    cases t.follow true maxLinks (startOf cwd p) p.steps with
    | error fault => simp
    | ok spot => cases spot <;> simp

theorem exists_stepOfPiece? {piece : List UInt8} (hne : piece ≠ []) (hslash : slash ∉ piece) :
    ∃ step, Path.stepOfPiece? piece = some step := by
  rw [Path.stepOfPiece?, Component.ofPiece?, Name.ofBytes?]
  split
  · exact ⟨_, rfl⟩
  · split
    · exact ⟨_, rfl⟩
    · next hdot hdots =>
      rw [dif_pos ⟨hne, hslash, hdot, hdots⟩]
      exact ⟨_, rfl⟩

/-- A path that is not empty asks for a step. -/
theorem steps_ne_nil {p : Path} (hne : p.bytes ≠ []) : p.steps ≠ [] := by
  rw [Path.steps]
  split
  · simp
  · next hend =>
    obtain ⟨b, hb⟩ := Option.ne_none_iff_exists'.1 (List.getLast?_eq_none_iff.not.2 hne)
    have hslash : b ≠ slash := by
      rintro rfl
      exact hend (by simp [Path.endsInSlash, hb])
    have hmem : b ∈ [slash].intercalate (p.bytes.splitOn slash) := by
      rw [List.intercalate_splitOn]
      exact List.mem_of_getLast? hb
    obtain ⟨piece, hpiece, hbpiece⟩ :=
      (Text.mem_intercalate hmem).resolve_left (by simpa using hslash)
    obtain ⟨step, hstep⟩ := exists_stepOfPiece? (List.ne_nil_of_mem hbpiece)
      (Text.notMem_of_mem_splitOn hpiece)
    have hsteps : step ∈ p.bareSteps := List.mem_filterMap.2 ⟨piece, hpiece, hstep⟩
    rw [List.append_nil]
    exact List.ne_nil_of_mem hsteps

theorem steps_ne_nil_of_checkPath {p : Path} (h : checkPath p = .ok ()) : p.steps ≠ [] := by
  apply steps_ne_nil
  rintro hempty
  simp [checkPath, hempty] at h

/-- A path leads to a file or a directory. -/
theorem exists_entry_of_resolve {cwd place : Location} {p : Path} (h : t.resolve cwd p = .ok place) :
    ∃ e, t.find? place = some e ∧ ∀ target, e ≠ .link target := by
  obtain ⟨hcheck, hleads⟩ := resolve_eq_ok_iff.1 h
  obtain ⟨e, he, hlink⟩ := hleads.exists_entry (.inl (steps_ne_nil_of_checkPath hcheck))
  exact ⟨e, he, hlink rfl⟩

theorem stat_eq_ok_iff {cwd : Location} {p : Path} {e : Entry} :
    t.stat cwd p = .ok e ↔ ∃ place, t.resolve cwd p = .ok place ∧ t.find? place = some e := by
  rw [stat, Except.bind_eq_ok_iff]
  apply exists_congr
  intro place
  apply and_congr_right
  intro _
  cases t.find? place <;> simp

/-- A path that leads to anything but a directory leads to a file. -/
theorem isFileAt_of_resolve {cwd place : Location} {p : Path} (h : t.resolve cwd p = .ok place) :
    t.isFileAt cwd p = !t.isDirectory place := by
  obtain ⟨e, he, hlink⟩ := exists_entry_of_resolve h
  rw [isFileAt, stat_eq_ok_iff.2 ⟨place, h, he⟩, isDirectory, he]
  cases e with
  | file => rfl
  | directory => rfl
  | link target => exact absurd rfl (hlink target)

theorem isFileAt_iff {cwd : Location} {p : Path} :
    t.isFileAt cwd p = true ↔ ∃ place, t.resolve cwd p = .ok place ∧ t.isDirectory place = false := by
  cases hresolve : t.resolve cwd p with
  | error fault => simp [isFileAt, stat, hresolve]
  | ok place => simp [isFileAt_of_resolve hresolve]

/-- A path that leads to an entry still does in a tree that keeps all entries. -/
theorem resolve_of_keeps (hkeeps : Keeps t t') {cwd place : Location} {p : Path}
    (h : t.resolve cwd p = .ok place) : t'.resolve cwd p = .ok place := by
  rw [resolve_eq_ok_iff] at h ⊢
  exact ⟨h.1, h.2.of_keeps hkeeps⟩

theorem resolve_of_extends (hext : Extends t t') {cwd place : Location} {p : Path}
    (h : t.resolve cwd p = .ok place) : t'.resolve cwd p = .ok place :=
  resolve_of_keeps hext.keeps h

/-- The view of a tree decides where paths lead. -/
theorem resolve_eq_ok_of_view (hview : ∀ place, t'.find? place = t.find? place) {cwd place : Location}
    {p : Path} : t'.resolve cwd p = .ok place ↔ t.resolve cwd p = .ok place :=
  ⟨resolve_of_extends fun q _ h => hview q ▸ h, resolve_of_extends fun q _ h => (hview q).trans h⟩

theorem isDirectory_of_view (hview : ∀ place, t'.find? place = t.find? place) (place : Location) :
    t'.isDirectory place = t.isDirectory place := by
  rw [isDirectory, hview, isDirectory]

theorem isFileAt_of_view (hview : ∀ place, t'.find? place = t.find? place) (cwd : Location)
    (p : Path) : t'.isFileAt cwd p = t.isFileAt cwd p := by
  rw [Bool.eq_iff_iff, isFileAt_iff, isFileAt_iff]
  simp only [resolve_eq_ok_of_view hview, isDirectory_of_view hview]

end AssetBake.FileTree
