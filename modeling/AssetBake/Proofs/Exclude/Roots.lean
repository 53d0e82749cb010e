import AssetBake.Proofs.Job.Collecting
import Mathlib

/-!
# Exclude lists and their roots

The rules of an exclude list do not depend on its root, but the part of a path that they see does: of a
path that begins with the root they see only what is behind it, although walks ask for paths below the
root already. Any other path gets the same verdict wherever the root is.
-/

namespace AssetBake

namespace ExcludeList

variable {root root₁ root₂ : Path} {lines : List (List Char)} {list list₁ list₂ : ExcludeList}
  {path : List UInt8} {isDirectory : Bool}

theorem ofLines_eq_ok_iff : ofLines root lines = .ok list ↔ ∃ rules,
    lines.mapM Rule.ofLine? = .ok rules ∧
      list = ⟨⟨dropLeadingCurrent root.bytes⟩, rules.filterMap id⟩ := by
  rw [ofLines, Except.bind_eq_ok_iff]
  simp [eq_comm]

/-- The lines alone decide which rules there are. -/
theorem rules_eq (h₁ : ofLines root₁ lines = .ok list₁) (h₂ : ofLines root₂ lines = .ok list₂) :
    list₁.rules = list₂.rules := by
  obtain ⟨rules, hrules, rfl⟩ := ofLines_eq_ok_iff.1 h₁
  obtain ⟨others, hothers, rfl⟩ := ofLines_eq_ok_iff.1 h₂
  cases hrules.symm.trans hothers
  rfl

/-- The path has a slash and begins with the bytes of the root. The root `.` counts for nothing, and
the root `./`, which is kept as the empty one, only for a path with a slash in front. -/
def Repeats (list : ExcludeList) (path : List UInt8) : Prop :=
  list.root.components ≠ [.current] ∧ slash ∈ path ∧ list.root.bytes <+: path ∧
    (list.root.bytes = [] → path.head? = some slash)

theorem strip_of_not_repeats (h : ¬list.Repeats (dropLeadingCurrent path)) :
    list.strip path = dropLeadingCurrent path := by
  rw [strip]
  split
  · rfl
  · next hseen =>
    rw [not_or, not_not, List.contains_iff_mem] at hseen
    split
    · next hbegins =>
      rw [List.isPrefixOf_iff_prefix] at hbegins
      have hroot : list.root.bytes = [] ∧ (dropLeadingCurrent path).head? ≠ some slash :=
        Classical.not_imp.1 fun hhead => h ⟨hseen.1, hseen.2, hbegins, hhead⟩
      -- Nothing is cut off with the empty root, not even a slash.
      rw [hroot.1, List.length_nil, List.drop_zero]
      split
      · next hnil => exact hnil.symm
      · next b rest hpath =>
        rw [hpath, List.head?_cons, Ne, Option.some_inj] at hroot
        rw [if_neg hroot.2, hpath]
    · rfl

theorem verdict_eq_of_strip_eq (hrules : list₁.rules = list₂.rules)
    (hstrip : list₁.strip path = list₂.strip path) :
    list₁.verdict path isDirectory = list₂.verdict path isDirectory := by
  rw [verdict, verdict, hrules, hstrip]

/-- Two lists of the same lines agree on every path that begins with neither of their roots. -/
theorem verdict_eq_of_not_repeats (h₁ : ofLines root₁ lines = .ok list₁)
    (h₂ : ofLines root₂ lines = .ok list₂) (hpath₁ : ¬list₁.Repeats (dropLeadingCurrent path))
    (hpath₂ : ¬list₂.Repeats (dropLeadingCurrent path)) :
    list₁.verdict path isDirectory = list₂.verdict path isDirectory := by
  apply verdict_eq_of_strip_eq (rules_eq h₁ h₂)
  rw [strip_of_not_repeats hpath₁, strip_of_not_repeats hpath₂]

theorem verdict_lib_f : ∃ list₁ list₂,
    ofLines (.ofString "./src") ["/f".toList] = .ok list₁ ∧
    ofLines (.ofString "./") ["/f".toList] = .ok list₂ ∧
    ¬list₁.Repeats (dropLeadingCurrent (Path.ofString "lib/f").bytes) ∧
    ¬list₂.Repeats (dropLeadingCurrent (Path.ofString "lib/f").bytes) ∧
    list₁.verdict (Path.ofString "lib/f").bytes false =
      list₂.verdict (Path.ofString "lib/f").bytes false := by
  obtain ⟨list₁, h₁, hroot₁⟩ : ∃ list, ofLines (.ofString "./src") ["/f".toList] = .ok list ∧
      list.root.bytes = [0x73, 0x72, 0x63] := ⟨_, by cbv, by cbv⟩
  obtain ⟨list₂, h₂, hroot₂⟩ : ∃ list, ofLines (.ofString "./") ["/f".toList] = .ok list ∧
      list.root.bytes = [] := ⟨_, by cbv, by cbv⟩
  have hpath : dropLeadingCurrent (Path.ofString "lib/f").bytes = [0x6c, 0x69, 0x62, slash, 0x66] :=
    by cbv
  have hpath₁ : ¬list₁.Repeats (dropLeadingCurrent (Path.ofString "lib/f").bytes) := by
    rw [hpath, Repeats, hroot₁]
    exact fun h => absurd h.2.2.1 (by decide)
  have hpath₂ : ¬list₂.Repeats (dropLeadingCurrent (Path.ofString "lib/f").bytes) := by
    rw [hpath, Repeats, hroot₂]
    exact fun h => absurd (h.2.2.2 rfl) (by decide)
  exact ⟨list₁, list₂, h₁, h₂, hpath₁, hpath₂, verdict_eq_of_not_repeats h₁ h₂ hpath₁ hpath₂⟩

end ExcludeList

/-- The directories `d` and `e` with the same file `d/f` in both. -/
def repeatingTree : FileTree where
  entries :=
    [([Job.nameD], .directory 0o755), ([Job.nameD, Job.nameD], .directory 0o755),
      ([Job.nameF, Job.nameD, Job.nameD], .file 0o644 []),
      ([Job.nameE], .directory 0o755),
      ([Job.nameD, Job.nameE], .directory 0o755),
      ([Job.nameF, Job.nameD, Job.nameE], .file 0o644 [])]
  distinct := by decide
  rooted := by simp

/-- Lists of the same line disagree on a path below their roots, and so a walk leaves out a file that
the walk of a directory with the same content and another name finds. -/
theorem exists_verdict_ne : (∃ list₁ list₂,
      ExcludeList.ofLines (.ofString "d") ["/f".toList] = .ok list₁ ∧
      ExcludeList.ofLines (.ofString "e") ["/f".toList] = .ok list₂ ∧
      list₁.verdict (Path.ofString "d/f").bytes false = .ignore ∧
      list₂.verdict (Path.ofString "d/f").bytes false = .none) ∧
    (repeatingTree.walk [] (.ofString "d") ["/f".toList] false).result = .ok [] ∧
    (repeatingTree.walk [] (.ofString "e") ["/f".toList] false).result =
      .ok [⟨.ofString "e/d/f", .ofString "d/f"⟩] :=
  ⟨⟨_, _, by cbv, by cbv, by cbv, by cbv⟩, by cbv, by cbv⟩

end AssetBake
