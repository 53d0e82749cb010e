import AssetBake.Proofs.Exclude.Roots
import Mathlib

/-!
# Longer exclude lists

Lines behind those of an exclude list only add rules behind its rules. The last rule that speaks about a
path decides, and a line that does not begin with `!` takes nothing in again, so what a list leaves out
is left out as well by the list with such lines behind it.
-/

namespace AssetBake

open Text

namespace Rule

variable {line : List Char} {rule : Rule}

/-! ### The kind of a rule -/

theorem trimLine_prefix (line : List Char) : trimLine line <+: line := by
  unfold trimLine
  split
  · exact List.prefix_refl line
  · have hsuffix := List.dropWhile_suffix isBlank (l := line.reverse)
    rw [← List.reverse_prefix, List.reverse_reverse] at hsuffix
    exact hsuffix

theorem head_eq_of_takeFront (h : (takeFront line).1 = true) : line.head? = some '!' := by
  unfold takeFront at h
  split at h
  case h_3 => rfl
  case h_4 => rfl
  all_goals cases h

theorem whitelist_eq_of_ofLine? (h : ofLine? line = .ok (some rule)) :
    rule.whitelist = (takeFront (trimLine line)).1 := by
  rw [ofLine?] at h
  cases hbare : Glob.parse (bareGlob line) with
  | error fault => simp [hbare] at h
  | ok =>
    simp only [hbare] at h
    by_cases hcomment : line.head? = some '#'
    · simp [hcomment] at h
    · by_cases hempty : (trimLine line).isEmpty = true
      · simp [hcomment, hempty] at h
      · cases hwhole : Glob.parse (Shape.ofLine (trimLine line)).wholeGlob with
        | error fault => simp [hcomment, hempty, hwhole] at h
        | ok pattern =>
          simp only [hcomment, hempty, hwhole] at h
          cases h
          rfl

/-- Only a line that begins with `!` takes paths in. -/
theorem head_eq_of_whitelist (h : ofLine? line = .ok (some rule)) (hrule : rule.whitelist = true) :
    line.head? = some '!' := by
  rw [whitelist_eq_of_ofLine? h] at hrule
  obtain ⟨blanks, hline⟩ := trimLine_prefix line
  rw [← hline, List.head?_append, head_eq_of_takeFront hrule]
  rfl

end Rule

namespace ExcludeList

variable {root : Path} {lines more : List (List Char)} {list : ExcludeList} {rules : List Rule}
  {path : List UInt8} {isDirectory : Bool}

/-! ### Rules behind other rules -/

/-- Lines that can be read add their rules behind those of the lines before them. -/
theorem ofLines_append (h : ofLines root lines = .ok list)
    (hmore : ∀ line ∈ more, ∃ rule, Rule.ofLine? line = .ok rule) :
    ∃ rules, ofLines root (lines ++ more) = .ok ⟨list.root, list.rules ++ rules⟩ ∧
      ∀ rule ∈ rules, ∃ line ∈ more, Rule.ofLine? line = .ok (some rule) := by
  obtain ⟨front, hfront, rfl⟩ := ofLines_eq_ok_iff.1 h
  have hfront := mapM_eq_ok_iff.1 hfront
  obtain ⟨back, hback⟩ : ∃ back, more.mapM Rule.ofLine? = .ok back := by
    rcases Except.ok_or_error (more.mapM Rule.ofLine?) with hok | ⟨fault, hfault⟩
    · exact hok
    · obtain ⟨_, line, _, rfl, _, hline⟩ := mapM_eq_error_iff.1 hfault
      obtain ⟨rule, hrule⟩ := hmore line (by simp)
      cases hrule.symm.trans hline
  have hback := mapM_eq_ok_iff.1 hback
  refine ⟨back.filterMap id, ofLines_eq_ok_iff.2 ⟨front ++ back, ?_, by simp⟩, ?_⟩
  · exact mapM_eq_ok_iff.2 (List.rel_append hfront hback)
  · intro rule hrule
    have hmem : some rule ∈ back := by simpa using hrule
    exact exists_of_mem_forall₂ hback.flip hmem

/-- The rules behind others decide wherever one of them speaks. -/
theorem verdict_append (list : ExcludeList) (rules : List Rule) (path : List UInt8)
    (isDirectory : Bool) :
    (⟨list.root, list.rules ++ rules⟩ : ExcludeList).verdict path isDirectory =
      match rules.reverse.find? (·.applies (list.strip path) isDirectory) with
      | none => list.verdict path isDirectory
      | some rule => if rule.whitelist then .whitelist else .ignore := by
  have hstrip : (⟨list.root, list.rules ++ rules⟩ : ExcludeList).strip path = list.strip path := rfl
  rw [verdict, hstrip, List.reverse_append, List.find?_append]
  cases rules.reverse.find? (·.applies (list.strip path) isDirectory) with
  | none => rfl
  | some rule => rfl

/-- What is left out stays out if no rule behind takes anything in. -/
theorem verdict_append_eq_ignore (hrules : ∀ rule ∈ rules, rule.whitelist = false)
    (h : list.verdict path isDirectory = .ignore) :
    (⟨list.root, list.rules ++ rules⟩ : ExcludeList).verdict path isDirectory = .ignore := by
  rw [verdict_append]
  cases hfind : rules.reverse.find? (·.applies (list.strip path) isDirectory) with
  | none => exact h
  | some rule =>
    have hmem := List.mem_reverse.1 (List.mem_of_find?_eq_some hfind)
    simp [hrules rule hmem]

end ExcludeList

end AssetBake
