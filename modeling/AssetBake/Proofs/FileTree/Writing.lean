import AssetBake.FileTree.Edit
import AssetBake.Proofs.FileTree.ReadingBack
import Mathlib

/-!
# Written files

What a write changes and what it leaves alone. A replacement that succeeds puts a file at one place, with
the permissions of what the path led to, and changes no other file and no link. A write that finds the
content in its place already changes nothing at all.
-/

namespace AssetBake.FileTree

variable {t t' : FileTree} {cwd place : Location} {p : Path} {content : List UInt8}

/-- What a replacement that succeeds makes of a tree. -/
structure Puts (t t' : FileTree) (cwd : Location) (p : Path) (content : List UInt8)
    (place : Location) : Prop where
  /-- The place is where the path leads once its parents are made, a link at the end not followed. -/
  led : ∃ spot, (t.withParents cwd p).locate cwd false p = .ok spot ∧ spot.place = place
  /-- The permissions are those of what the path leads to then, with links followed, or those of a
  new file. -/
  file : t'.find? place =
    some (.file (((t.withParents cwd p).modeAt cwd p).toOption.getD t.host.fileMode) content)
  kept : ∀ q, q ≠ place → ∀ e, e.isDirectory = false → (t'.find? q = some e ↔ t.find? q = some e)
  grown : ∀ q, q ≠ place → t'.find? q = t.find? q ∨
    t.find? q = none ∧ t'.find? q = some (.directory t.host.directoryMode) ∧
      OnTheWay (t.withParents cwd p) cwd (parentOf p) q
  leads : ¬(t.withParents cwd p).RunsThroughItself cwd p →
    t'.locate cwd false p = .ok (.present place)

theorem replacementMode_eq (t : FileTree) (cwd : Location) (p : Path) :
    t.replacementMode cwd p = (t.modeAt cwd p).toOption.getD t.host.fileMode := by
  rw [replacementMode, modeAt]
  cases hstat : t.stat cwd p with
  | error fault => rfl
  | ok e => cases e <;> rfl

theorem exists_puts_of_replaceFile (h : t.replaceFile cwd p content = (t', .ok ())) :
    ∃ place, Puts t t' cwd p content place := by
  obtain ⟨spot, hspot, hplain, hview⟩ := find?_of_replaceFile h
  have hgrows := grows_makeDirectories t cwd (parentOf p)
  have hother : ∀ q, q ≠ spot.place → t'.find? q = (t.withParents cwd p).find? q := by
    intro q hq
    rw [hview, if_neg hq]
  refine ⟨spot.place, ⟨spot, hspot, rfl⟩, ?_, fun q hq e he => ?_, fun q hq => ?_, fun hruns => ?_⟩
  · rw [hview, if_pos rfl, replacementMode_eq, (grows_withParents t cwd p).host]
  · rw [hother q hq]
    exact hgrows.find?_eq_some_iff he
  · rw [hother q hq]
    exact hgrows.view q
  · exact locate_of_replaced hspot ⟨hplain, _, hview⟩ hruns false

/-- What a write that succeeds does. -/
structure Writes (t t' : FileTree) (cwd : Location) (p : Path) (content : List UInt8)
    (outcome : WriteOutcome) : Prop where
  unchanged_iff : outcome = .unchanged ↔ t.contentAt cwd p = .ok content
  same : outcome = .unchanged → t' = t
  replaced : outcome = .written → ∃ place, Puts t t' cwd p content place
  readBack : outcome = .unchanged ∨ ¬(t.withParents cwd p).RunsThroughItself cwd p →
    t'.contentAt cwd p = .ok content

theorem writes_of_writeIfChanged {outcome : WriteOutcome}
    (h : t.writeIfChanged cwd p content = (t', .ok outcome)) : Writes t t' cwd p content outcome := by
  rw [writeIfChanged] at h
  split at h
  · next hholds =>
    cases h
    have hcontent := holds_eq_true_iff.1 hholds
    exact ⟨by simp [hcontent], fun _ => rfl, by simp, fun _ => hcontent⟩
  · next hholds =>
    have hcontent := holds_eq_true_iff.not.1 hholds
    split at h
    · cases h
    · next hreplace =>
      cases h
      exact ⟨by simp [hcontent], by simp, fun _ => exists_puts_of_replaceFile hreplace,
        fun hkept => contentAt_of_replaceFile hreplace (hkept.resolve_left (by simp))⟩

/-- A replacement that succeeds puts one file and changes nothing else but for missing directories, and a
write that succeeds is such a replacement or had nothing to do. -/
theorem puts_and_writes (t : FileTree) (cwd : Location) (p : Path) (content : List UInt8) :
    ((t.replaceFile cwd p content).2 = .ok () →
      ∃ place, Puts t (t.replaceFile cwd p content).1 cwd p content place) ∧
    ∀ outcome, (t.writeIfChanged cwd p content).2 = .ok outcome →
      Writes t (t.writeIfChanged cwd p content).1 cwd p content outcome :=
  ⟨fun h => exists_puts_of_replaceFile (Prod.ext rfl h),
    fun _ h => writes_of_writeIfChanged (Prod.ext rfl h)⟩

/-! ### Links that are replaced -/

def nameK : Name := ⟨[0x6b], by decide⟩

def nameN : Name := ⟨[0x6e], by decide⟩

def nameT : Name := ⟨[0x74], by decide⟩

/-- A file `t` that only its owner may read, and a link `k` to it. Others may not even read what is
new. -/
def aliasTree : FileTree where
  entries := [([nameT], .file 0o600 [0x68, 0x69]), ([nameK], .link (.ofString "t"))]
  distinct := by decide
  rooted := by simp
  host := { umask := 0o027 }

/-- The link is replaced by a file with the permissions of its target, and the target stays. Before that
the link gave the content of its target, so that there was nothing to write. What is new has the
permissions that the umask leaves. -/
theorem puts_aliasTree :
    (aliasTree.replaceFile [] (.ofString "n/../k") [0x78]).2 = .ok () ∧
    (∃ place, Puts aliasTree (aliasTree.replaceFile [] (.ofString "n/../k") [0x78]).1 []
      (.ofString "n/../k") [0x78] place) ∧
    (aliasTree.replaceFile [] (.ofString "n/../k") [0x78]).1.find? [nameK] =
      some (.file 0o600 [0x78]) ∧
    (aliasTree.replaceFile [] (.ofString "n/../k") [0x78]).1.find? [nameN] =
      some (.directory 0o750) ∧
    (aliasTree.writeIfChanged [] (.ofString "k") [0x68, 0x69]).2 = .ok .unchanged ∧
    Writes aliasTree (aliasTree.writeIfChanged [] (.ofString "k") [0x68, 0x69]).1 []
      (.ofString "k") [0x68, 0x69] .unchanged ∧
    (aliasTree.writeIfChanged [] (.ofString "n") [0x78]).2 = .ok .written ∧
    Writes aliasTree (aliasTree.writeIfChanged [] (.ofString "n") [0x78]).1 []
      (.ofString "n") [0x78] .written ∧
    (aliasTree.writeIfChanged [] (.ofString "n") [0x78]).1.find? [nameN] =
      some (.file 0o640 [0x78]) := by
  have hput : (aliasTree.replaceFile [] (.ofString "n/../k") [0x78]).2 = .ok () := by cbv
  have hsame : (aliasTree.writeIfChanged [] (.ofString "k") [0x68, 0x69]).2 = .ok .unchanged := by
    cbv
  have hnew : (aliasTree.writeIfChanged [] (.ofString "n") [0x78]).2 = .ok .written := by cbv
  exact ⟨hput, (puts_and_writes _ _ _ _).1 hput, by cbv, by cbv,
    hsame, (puts_and_writes _ _ _ _).2 _ hsame, hnew, (puts_and_writes _ _ _ _).2 _ hnew, by cbv⟩

/-- A directory `t` with a link `k` to itself. -/
def innerTree : FileTree where
  entries := [([nameT], .directory 0o755), ([nameK, nameT], .link (.ofString "."))]
  distinct := by decide
  rooted := by simp

/-- The path runs through the link that it ends at. Once a file has replaced the link the path leads
nowhere, and nothing can be read there. -/
theorem locate_innerTree :
    (innerTree.replaceFile [] (.ofString "t/k/k") [0x78]).2 = .ok () ∧
    (innerTree.replaceFile [] (.ofString "t/k/k") [0x78]).1.locate [] false (.ofString "t/k/k") =
      .error .notDirectory ∧
    (innerTree.writeIfChanged [] (.ofString "t/k/k") [0x78]).2 = .ok .written ∧
    (innerTree.writeIfChanged [] (.ofString "t/k/k") [0x78]).1.contentAt [] (.ofString "t/k/k") =
      .error .notDirectory :=
  ⟨by cbv, by cbv, by cbv, by cbv⟩

end AssetBake.FileTree
