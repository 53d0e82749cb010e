import AssetBake.Path

/-!
# File trees

A tree of files, symbolic links and directories, by the places of its entries. The view of a tree is
`FileTree.find?`: what is found at a place. Every operation says what it does to that view.

The process that works on a tree is one that permission bits do not stop, a privileged one. Modes are
kept, copied and shown, but no operation asks them for leave. Devices, pipes and sockets are no entries
of a tree, and what a file or directory holds can always be read.
-/

namespace AssetBake

/-- The place of an entry: the names from the entry up to the root. -/
abbrev Location := List Name

inductive Entry
  | file (mode : Nat) (content : List UInt8)
  | link (target : Path)
  | directory (mode : Nat)
deriving DecidableEq

def Entry.isDirectory : Entry → Bool
  | .directory _ => true
  | _ => false

def Entry.isFile : Entry → Bool
  | .file .. => true
  | _ => false

/-- The mode of the root. -/
def directoryMode : Nat := 0o755

/-! ### The system that keeps a tree -/

/-- What a process asks of the system when it replaces a file, at the place that it is about. -/
inductive Request
  | makeDirectory (at' : Location)
  | stage (dir : Location)
  | copyMode (dir : Location)
  | fill (dir : Location)
  | rename (target : Location)

/-- What is up to the system that keeps a tree, and to the process that works on it. -/
structure Host where
  umask : Nat := 0o022
  /-- Why a request is refused that the tree would allow: the device is full, say. -/
  refusal : Request → Option String := fun _ => none

namespace Host

def lessUmask (host : Host) (mode : Nat) : Nat :=
  mode &&& (mode ^^^ host.umask)

/-- A bit of a mode stays unless the umask has it. -/
theorem testBit_lessUmask (host : Host) (mode i : Nat) :
    (host.lessUmask mode).testBit i = (mode.testBit i && !host.umask.testBit i) := by
  rw [lessUmask, Nat.testBit_and, Nat.testBit_xor]
  cases mode.testBit i <;> simp

def fileMode (host : Host) : Nat :=
  host.lessUmask 0o666

def directoryMode (host : Host) : Nat :=
  host.lessUmask 0o777

end Host

/-- A file tree. Its root is no entry of its own; every other entry stands once, in a directory. -/
structure FileTree where
  entries : List (Location × Entry)
  distinct : (entries.map (·.1)).Nodup
  rooted : ∀ e ∈ entries, e.1 ≠ [] ∧
    (e.1.tail = [] ∨ ∃ mode, (e.1.tail, Entry.directory mode) ∈ entries)
  host : Host := {}

namespace FileTree

def empty : FileTree where
  entries := []
  distinct := by simp
  rooted := by simp

/-- What is found at a place. -/
def find? (t : FileTree) (at' : Location) : Option Entry :=
  match at' with
  | [] => some (.directory directoryMode)
  | n :: up => t.entries.lookup (n :: up)

def isDirectory (t : FileTree) (at' : Location) : Bool :=
  (t.find? at').any Entry.isDirectory

def names (t : FileTree) (dir : Location) : List Name :=
  t.entries.filterMap fun e =>
    match e.1 with
    | [] => none
    | n :: up => if up = dir then some n else none

/-! ### Look-up -/

theorem mem_of_lookup {entries : List (Location × Entry)} {at' : Location} {e : Entry}
    (h : entries.lookup at' = some e) : (at', e) ∈ entries := by
  obtain ⟨front, back, rfl, _⟩ := List.lookup_eq_some_iff.1 h
  simp

theorem lookup_of_mem {entries : List (Location × Entry)} {at' : Location} {e : Entry}
    (distinct : (entries.map (·.1)).Nodup) (h : (at', e) ∈ entries) :
    entries.lookup at' = some e := by
  induction entries with
  | nil => simp at h
  | cons first rest ih =>
    obtain ⟨place, other⟩ := first
    rw [List.map_cons, List.nodup_cons] at distinct
    rcases List.mem_cons.1 h with hfirst | hrest
    · cases hfirst
      simp
    · have hne : at' ≠ place := fun heq =>
        distinct.1 (List.mem_map.2 ⟨(at', e), hrest, heq⟩)
      rw [List.lookup_cons, beq_eq_false_iff_ne.2 hne]
      exact ih distinct.2 hrest

theorem find?_eq_some_iff (t : FileTree) {at' : Location} (hne : at' ≠ []) {e : Entry} :
    t.find? at' = some e ↔ (at', e) ∈ t.entries := by
  cases at' with
  | nil => exact absurd rfl hne
  | cons n up => exact ⟨mem_of_lookup, lookup_of_mem t.distinct⟩

@[simp] theorem isDirectory_root (t : FileTree) : t.isDirectory [] = true := rfl

theorem isDirectory_iff (t : FileTree) (at' : Location) :
    t.isDirectory at' = true ↔ ∃ mode, t.find? at' = some (.directory mode) := by
  unfold isDirectory
  cases h : t.find? at' with
  | none => simp
  | some e => cases e <;> simp [Entry.isDirectory]

/-! ### Changes -/

/-- Whether an entry can be put at a place: it lies in a directory and is none itself. -/
def CanPut (t : FileTree) (at' : Location) : Prop :=
  t.isDirectory at'.tail = true ∧ t.isDirectory at' = false

instance (t : FileTree) (at' : Location) : Decidable (t.CanPut at') :=
  inferInstanceAs (Decidable (_ ∧ _))

theorem CanPut.ne_nil {t : FileTree} {at' : Location} (h : t.CanPut at') : at' ≠ [] := by
  rintro rfl
  simp [CanPut] at h

/-- Puts an entry at a place where it can be put, instead of the one there. -/
def put (t : FileTree) (at' : Location) (e : Entry) : FileTree :=
  if h : t.CanPut at' then
    { entries := (at', e) :: t.entries.filter fun old => old.1 ≠ at'
      distinct := by
        rw [List.map_cons, List.nodup_cons]
        refine ⟨by simp, ?_⟩
        exact List.Sublist.nodup (List.Sublist.map _ List.filter_sublist) t.distinct
      rooted := by
        have hplace := h.ne_nil
        have keep : ∀ place mode, (place, Entry.directory mode) ∈ t.entries →
            (place, Entry.directory mode) ∈
              (at', e) :: t.entries.filter fun old => old.1 ≠ at' := by
          intro place mode hmem
          refine List.mem_cons_of_mem _ (List.mem_filter.2 ⟨hmem, ?_⟩)
          have hroot := (t.rooted _ hmem).1
          rw [decide_eq_true_eq]
          rintro rfl
          have hdir := (t.find?_eq_some_iff hroot).2 hmem
          simp [(t.isDirectory_iff _).2 ⟨mode, hdir⟩, CanPut] at h
        intro old hold
        rcases List.mem_cons.1 hold with rfl | hold
        · refine ⟨hplace, ?_⟩
          by_cases htail : at'.tail = []
          · exact .inl htail
          · obtain ⟨mode, hmode⟩ := (t.isDirectory_iff _).1 h.1
            exact .inr ⟨mode, keep _ _ ((t.find?_eq_some_iff htail).1 hmode)⟩
        · have hroot := t.rooted old (List.mem_filter.1 hold).1
          exact ⟨hroot.1, hroot.2.imp id fun ⟨mode, hmode⟩ => ⟨mode, keep _ _ hmode⟩⟩
      host := t.host }
  else t

/-- The same entry with another mode; links have none. -/
def Entry.withMode (mode : Nat) : Entry → Entry
  | .file _ content => .file mode content
  | .link target => .link target
  | .directory _ => .directory mode

def setMode (t : FileTree) (at' : Location) (mode : Nat) : FileTree where
  host := t.host
  entries := t.entries.map fun e => if e.1 = at' then (e.1, Entry.withMode mode e.2) else e
  distinct := by
    rw [List.map_map]
    have : ((·.1) ∘ fun e : Location × Entry =>
        if e.1 = at' then (e.1, Entry.withMode mode e.2) else e) = (·.1) := by
      funext e
      simp only [Function.comp]
      split <;> rfl
    rw [this]
    exact t.distinct
  rooted := by
    intro e he
    obtain ⟨old, hold, rfl⟩ := List.mem_map.1 he
    have hroot := t.rooted old hold
    have hfirst : (if old.1 = at' then (old.1, Entry.withMode mode old.2) else old).1 = old.1 := by
      split <;> rfl
    rw [hfirst]
    refine ⟨hroot.1, hroot.2.imp id fun ⟨was, hwas⟩ => ?_⟩
    by_cases hplace : old.1.tail = at'
    · exact ⟨mode, List.mem_map.2 ⟨_, hwas, by simp [hplace, Entry.withMode]⟩⟩
    · exact ⟨was, List.mem_map.2 ⟨_, hwas, by simp [hplace]⟩⟩

/-- Removes the entry at a place and all that is below it. -/
def remove (t : FileTree) (at' : Location) : FileTree :=
  if hplace : at' = [] then t
  else
    { entries := t.entries.filter fun e => ¬at' <:+ e.1
      distinct := List.Sublist.nodup (List.Sublist.map _ List.filter_sublist) t.distinct
      rooted := by
        intro e he
        obtain ⟨hmem, hkept⟩ := List.mem_filter.1 he
        have hroot := t.rooted e hmem
        refine ⟨hroot.1, hroot.2.imp id fun ⟨mode, hmode⟩ => ⟨mode, List.mem_filter.2 ⟨hmode, ?_⟩⟩⟩
        rw [decide_eq_true_eq] at hkept ⊢
        intro hbelow
        obtain ⟨n, up, hcons⟩ := List.exists_cons_of_ne_nil hroot.1
        rw [hcons] at hkept hbelow
        exact hkept (hbelow.trans (List.suffix_cons n up))
      host := t.host }

/-! ### The view after a change -/

@[simp] theorem host_put (t : FileTree) (at' : Location) (e : Entry) :
    (t.put at' e).host = t.host := by
  unfold put
  split <;> rfl

@[simp] theorem host_setMode (t : FileTree) (at' : Location) (mode : Nat) :
    (t.setMode at' mode).host = t.host := rfl

@[simp] theorem host_remove (t : FileTree) (at' : Location) : (t.remove at').host = t.host := by
  unfold remove
  split <;> rfl

@[simp] theorem find?_root (t : FileTree) : t.find? [] = some (.directory directoryMode) := rfl

theorem find?_empty {at' : Location} (hne : at' ≠ []) : empty.find? at' = none := by
  cases at' with
  | nil => exact absurd rfl hne
  | cons n up => rfl

/-- After a change that can be made, the new entry is found at its place and nothing else differs. -/
theorem find?_put {t : FileTree} {at' : Location} (h : t.CanPut at') (e : Entry) (q : Location) :
    (t.put at' e).find? q = if q = at' then some e else t.find? q := by
  by_cases hq : q = []
  · subst hq
    simp [h.ne_nil.symm]
  · ext x
    rw [find?_eq_some_iff _ hq]
    by_cases hplace : q = at'
    · simp [put, h, hplace, eq_comm]
    · rw [if_neg hplace, find?_eq_some_iff _ hq]
      simp [put, h, hplace]

theorem put_of_not_canPut {t : FileTree} {at' : Location} (h : ¬t.CanPut at') (e : Entry) :
    t.put at' e = t := by
  simp [put, h]

/-- A new mode is found at its place and nothing else differs. -/
theorem find?_setMode (t : FileTree) (at' : Location) (mode : Nat) {q : Location} (hq : q ≠ []) :
    (t.setMode at' mode).find? q =
      if q = at' then (t.find? q).map (Entry.withMode mode) else t.find? q := by
  ext x
  rw [find?_eq_some_iff _ hq]
  simp only [setMode, List.mem_map]
  constructor
  · rintro ⟨⟨place, e⟩, hmem, heq⟩
    by_cases hplace : place = at'
    · rw [if_pos hplace] at heq
      cases heq
      rw [if_pos hplace, (t.find?_eq_some_iff hq).2 hmem]
      rfl
    · rw [if_neg hplace] at heq
      cases heq
      rw [if_neg hplace, (t.find?_eq_some_iff hq).2 hmem]
  · intro h
    by_cases hplace : q = at'
    · rw [if_pos hplace] at h
      obtain ⟨e, he, rfl⟩ := Option.map_eq_some_iff.1 h
      exact ⟨(q, e), (t.find?_eq_some_iff hq).1 he, by rw [if_pos hplace]⟩
    · rw [if_neg hplace] at h
      exact ⟨(q, x), (t.find?_eq_some_iff hq).1 h, by rw [if_neg hplace]⟩

/-- After a removal nothing is found at the place or below it, and nothing else differs. -/
theorem find?_remove (t : FileTree) {at' : Location} (hplace : at' ≠ []) (q : Location) :
    (t.remove at').find? q = if at' <:+ q then none else t.find? q := by
  by_cases hq : q = []
  · subst hq
    simp [hplace]
  · ext x
    rw [find?_eq_some_iff _ hq]
    by_cases hbelow : at' <:+ q
    · simp [remove, hplace, hbelow]
    · rw [if_neg hbelow, find?_eq_some_iff _ hq]
      simp [remove, hplace, hbelow]

end FileTree

end AssetBake
