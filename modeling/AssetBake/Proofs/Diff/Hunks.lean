import AssetBake.Diff.Hunk
import AssetBake.Proofs.Diff.Moving
import Mathlib.Data.List.Chain

/-!
# Hunks of a script

The hunks of a script that fits two sequences lie in order in both, without overlap, and outside of them
the sequences are the same. A hunk begins with kept elements or at the beginning of both sequences, and
ends with kept elements or at the end of both.
-/

namespace AssetBake.Diff

variable {α : Type} {old new : List α} {o n o' n' o₀ n₀ : Nat}

/-! ### Edits that fit -/

/-- The edits lead from positions in both sequences to others. Where a change starts is known only in the
sequence that it takes elements of. -/
inductive Covers (old new : List α) : Nat → Nat → List Edit → Nat → Nat → Prop
  | nil {o n : Nat} : Covers old new o n [] o n
  | keep {o n length o' n' : Nat} {edits : List Edit} (hshared : Shared old new o n length)
      (hrest : Covers old new (o + length) (n + length) edits o' n') :
      Covers old new o n (.keep o n length :: edits) o' n'
  | change {o n oldAt deleted newAt inserted o' n' : Nat} {edits : List Edit}
      (hold : 0 < deleted → oldAt = o) (hnew : 0 < inserted → newAt = n)
      (hpos : 0 < deleted + inserted) (hdeleted : o + deleted ≤ old.length)
      (hinserted : n + inserted ≤ new.length)
      (hrest : Covers old new (o + deleted) (n + inserted) edits o' n') :
      Covers old new o n (.change oldAt deleted newAt inserted :: edits) o' n'

theorem Covers.append {front back : List Edit} {o₁ n₁ : Nat} (h : Covers old new o n front o₁ n₁)
    (h' : Covers old new o₁ n₁ back o' n') : Covers old new o n (front ++ back) o' n' := by
  induction h with
  | nil => exact h'
  | keep hshared _ ih => exact .keep hshared (ih h')
  | change hold hnew hpos hdeleted hinserted _ ih =>
    exact .change hold hnew hpos hdeleted hinserted (ih h')

theorem Covers.split {front back : List Edit} (h : Covers old new o n (front ++ back) o' n') :
    ∃ o₁ n₁, Covers old new o n front o₁ n₁ ∧ Covers old new o₁ n₁ back o' n' := by
  induction front generalizing o n with
  | nil => exact ⟨o, n, .nil, h⟩
  | cons edit front ih =>
    cases h with
    | keep hshared hrest =>
      obtain ⟨o₁, n₁, hfront, hback⟩ := ih hrest
      exact ⟨o₁, n₁, .keep hshared hfront, hback⟩
    | change hold hnew hpos hdeleted hinserted hrest =>
      obtain ⟨o₁, n₁, hfront, hback⟩ := ih hrest
      exact ⟨o₁, n₁, .change hold hnew hpos hdeleted hinserted hfront, hback⟩

/-- Edits that start inside of both sequences end inside of them. -/
theorem Covers.inside {edits : List Edit} (h : Covers old new o n edits o' n')
    (hstart : Shared old new o n 0) : Shared old new o' n' 0 := by
  induction h with
  | nil => exact hstart
  | keep hshared _ ih => exact ih ⟨hshared.old_le, hshared.new_le, by simp⟩
  | change _ _ _ hdeleted hinserted _ ih => exact ih ⟨hdeleted, hinserted, by simp⟩

/-! ### The edits of a script -/

/-- A waiting run spans the elements from one position to another. -/
def Spans (waiting : Option Run) (start : Run → Nat) (first last : Nat) : Prop :=
  match waiting with
  | none => last = first
  | some run => start run = first ∧ 0 < run.length ∧ last = first + run.length

theorem Spans.lengthen {waiting : Option Run} {start : Run → Nat} {first last : Nat} {run : Run}
    (h : Spans waiting start first last) (hstart : start run = last) (hpos : 0 < run.length)
    (hsame : ∀ r length, start { r with length := length } = start r) :
    Spans (lengthen waiting run) start first (last + run.length) := by
  cases waiting with
  | none => exact ⟨hstart.trans h, hpos, congrArg (· + run.length) h⟩
  | some r =>
    obtain ⟨hfirst, hlength, hlast⟩ := h
    exact ⟨(hsame r _).trans hfirst, Nat.add_pos_left hlength _, by dsimp only; omega⟩

/-- The waiting changes lead from positions in both sequences to others. -/
structure Changes.Wait (changes : Changes) (o₀ n₀ o n : Nat) : Prop where
  deleted : Spans changes.deleted Run.old o₀ o
  inserted : Spans changes.inserted Run.new n₀ n

theorem Changes.Wait.covers {changes : Changes} (h : changes.Wait o₀ n₀ o n)
    (ho : o ≤ old.length) (hn : n ≤ new.length) : Covers old new o₀ n₀ changes.edits o n := by
  obtain ⟨deleted, inserted⟩ := changes
  obtain ⟨hdeleted, hinserted⟩ := h
  cases deleted with
  | none =>
    obtain rfl : o = o₀ := hdeleted
    cases inserted with
    | none =>
      obtain rfl : n = n₀ := hinserted
      exact .nil
    | some i =>
      obtain ⟨hi, hipos, rfl⟩ := hinserted
      exact .change (by simp) (fun _ => hi) (by omega) (by omega) hn .nil
  | some d =>
    obtain ⟨hd, hdpos, rfl⟩ := hdeleted
    cases inserted with
    | none =>
      obtain rfl : n = n₀ := hinserted
      exact .change (fun _ => hd) (by simp) (by omega) ho (by omega) .nil
    | some i =>
      obtain ⟨hi, hipos, rfl⟩ := hinserted
      exact .change (fun _ => hd) (fun _ => hi) (by omega) ho hn .nil

theorem covers_changesThen {changes : Changes} {runs : List Run} (hwait : changes.Wait o₀ n₀ o n)
    (ho : o ≤ old.length) (hn : n ≤ new.length) (h : Fits old new o n runs o' n') :
    Covers old new o₀ n₀ (changesThen changes runs) o' n' := by
  induction h generalizing changes o₀ n₀ with
  | nil => exact hwait.covers ho hn
  | equal hpos hshared _ ih =>
    exact (hwait.covers ho hn).append
      (.keep hshared (ih ⟨rfl, rfl⟩ hshared.old_le hshared.new_le))
  | delete hpos hle _ ih =>
    exact ih ⟨hwait.deleted.lengthen rfl hpos fun _ _ => rfl, hwait.inserted⟩ hle hn
  | insert hpos hle _ ih =>
    exact ih ⟨hwait.deleted, hwait.inserted.lengthen rfl hpos fun _ _ => rfl⟩ ho hle

theorem covers_joinKeeps {edits : List Edit} (h : Covers old new o n edits o' n') :
    Covers old new o n (joinKeeps edits) o' n' := by
  induction h with
  | nil => exact .nil
  | keep hshared _ ih =>
    rw [joinKeeps]
    split
    · next more edits heq =>
      rw [heq] at ih
      cases ih with
      | keep hmore hrest =>
        rw [Nat.add_assoc, Nat.add_assoc] at hrest
        exact .keep (hshared.append hmore) hrest
    · exact .keep hshared ih
  | change hold hnew hpos hdeleted hinserted _ ih =>
    exact .change hold hnew hpos hdeleted hinserted ih

theorem covers_edits {runs : List Run} (h : Fits old new 0 0 runs o' n') :
    Covers old new 0 0 (edits runs) o' n' :=
  covers_joinKeeps (covers_changesThen ⟨rfl, rfl⟩ (Nat.zero_le _) (Nat.zero_le _) h)

/-! ### Kept runs and changes in turn -/

/-- The edit is no empty kept run. -/
def Edit.IsSolid : Edit → Prop
  | keep _ _ length => 0 < length
  | change .. => True

/-- Kept runs and changes follow each other in turn, and only the first or the last edit may be an empty
kept run. -/
structure Alternating (edits : List Edit) : Prop where
  kinds : (edits.map Edit.isKeep).IsChain (· ≠ ·)
  inner : ∀ front edit back, edits = front ++ edit :: back → front ≠ [] → back ≠ [] → edit.IsSolid

section

variable {front back : List Edit} {first first' second second' length length' : Nat}

/-- The edits up to a kept run, which may be given another length. -/
theorem Alternating.untilKeep (h : Alternating (front ++ .keep first second length :: back)) :
    Alternating (front ++ [.keep first' second' length']) where
  kinds := by
    have hkinds := h.kinds
    rw [List.append_cons, List.map_append] at hkinds
    simpa [Edit.isKeep] using hkinds.left_of_append
  inner start edit rest heq hstart hrest := by
    obtain ⟨rest', last, rfl⟩ := (List.eq_nil_or_concat rest).resolve_left hrest
    rw [List.concat_eq_append, ← List.cons_append, ← List.append_assoc] at heq
    obtain ⟨rfl, -⟩ := List.append_inj' heq rfl
    exact h.inner start edit (rest' ++ .keep first second length :: back) (by simp) hstart (by simp)

/-- The edits from a kept run on, which may be given another length. -/
theorem Alternating.sinceKeep (h : Alternating (front ++ .keep first second length :: back)) :
    Alternating (.keep first' second' length' :: back) where
  kinds := by
    have hkinds := h.kinds
    rw [List.map_append] at hkinds
    simpa [Edit.isKeep] using hkinds.right_of_append
  inner start edit rest heq hstart hrest := by
    cases start with
    | nil => exact absurd rfl hstart
    | cons head start =>
      obtain ⟨-, rfl⟩ := List.cons.inj heq
      exact h.inner (front ++ .keep first second length :: start) edit rest (by simp) (by simp) hrest

end

theorem Alternating.reverse {edits : List Edit} (h : Alternating edits) :
    Alternating edits.reverse where
  kinds := by
    rw [List.map_reverse, List.isChain_reverse]
    exact h.kinds.imp fun _ _ => Ne.symm
  inner front edit back heq hfront hback := by
    refine h.inner back.reverse edit front.reverse ?_ (by simpa) (by simpa)
    rw [← List.reverse_inj, heq]
    simp

/-- After a change comes nothing, or a kept run that is the last edit or not empty. -/
theorem Alternating.after_change {oldAt deleted newAt inserted : Nat} {rest : List Edit}
    (h : Alternating (.change oldAt deleted newAt inserted :: rest)) :
    rest = [] ∨ ∃ o n length back, rest = .keep o n length :: back ∧ (0 < length ∨ back = []) := by
  cases rest with
  | nil => exact .inl rfl
  | cons edit back =>
    cases edit with
    | change => exact absurd h.kinds (by simp [Edit.isKeep])
    | keep o n length =>
      refine .inr ⟨o, n, length, back, rfl, ?_⟩
      by_cases hback : back = []
      · exact .inr hback
      · exact .inl (h.inner [_] (.keep o n length) back rfl (List.cons_ne_nil _ _) hback)

theorem isChain_changesThen (changes : Changes) (runs : List Run) :
    ((changesThen changes runs).map Edit.isKeep).IsChain (fun a b => a = true ∨ b = true) := by
  have hedits (changes : Changes) : changes.edits = [] ∨ ∃ edit, changes.edits = [edit] := by
    obtain ⟨_ | d, _ | i⟩ := changes <;> simp [Changes.edits]
  fun_induction changesThen changes runs with
  | case1 changes => rcases hedits changes with h | ⟨edit, h⟩ <;> simp [h]
  | case2 changes run rest htag ih => exact ih
  | case3 changes run rest htag ih => exact ih
  | case4 changes run rest htag ih =>
    have hkeep : ((Edit.keep run.old run.new run.length :: changesThen ⟨none, none⟩ rest).map
        Edit.isKeep).IsChain (fun a b => a = true ∨ b = true) := by
      rw [List.map_cons, List.isChain_cons]
      exact ⟨fun _ _ => .inl rfl, ih⟩
    rcases hedits changes with h | ⟨edit, h⟩
    · rwa [h]
    · rw [h, List.singleton_append, List.map_cons, List.map_cons, List.isChain_cons_cons]
      exact ⟨.inr rfl, hkeep⟩

theorem head?_joinKeeps (edits : List Edit) :
    (joinKeeps edits).head?.map Edit.isKeep = edits.head?.map Edit.isKeep := by
  fun_cases joinKeeps edits <;> simp_all [Edit.isKeep]

theorem isChain_joinKeeps {edits : List Edit}
    (h : (edits.map Edit.isKeep).IsChain (fun a b => a = true ∨ b = true)) :
    ((joinKeeps edits).map Edit.isKeep).IsChain (· ≠ ·) := by
  induction edits with
  | nil => exact .nil
  | cons edit rest ih =>
    rw [List.map_cons, List.isChain_cons] at h
    have ih := ih h.2
    cases edit with
    | keep o n length =>
      rw [joinKeeps]
      split
      · next heq => simpa [heq, Edit.isKeep] using ih
      · next hno =>
        rw [List.map_cons, List.isChain_cons]
        refine ⟨fun kind hkind => ?_, ih⟩
        rw [List.head?_map] at hkind
        obtain ⟨edit, hhead, rfl⟩ := Option.map_eq_some_iff.1 hkind
        obtain ⟨more, hmore⟩ := List.head?_eq_some_iff.1 hhead
        cases edit with
        | keep first second length' => exact absurd hmore (hno first second length' more)
        | change => simp [Edit.isKeep]
    | change =>
      rw [joinKeeps, List.map_cons, List.isChain_cons]
      · refine ⟨fun kind hkind => ?_, ih⟩
        rw [List.head?_map, head?_joinKeeps, ← List.head?_map] at hkind
        have hkeep := (h.1 kind hkind).resolve_left (by simp [Edit.isKeep])
        simp [hkeep, Edit.isKeep]
      · simp

theorem isSolid_of_mem_changesThen {changes : Changes} {runs : List Run}
    (hpos : ∀ run ∈ runs, 0 < run.length) : ∀ edit ∈ changesThen changes runs, edit.IsSolid := by
  have hedits (changes : Changes) : ∀ edit ∈ changes.edits, edit.IsSolid := by
    obtain ⟨_ | d, _ | i⟩ := changes <;> simp [Changes.edits, Edit.IsSolid]
  fun_induction changesThen changes runs with
  | case1 changes => exact hedits changes
  | case2 changes run rest htag ih => exact ih (List.forall_mem_cons.1 hpos).2
  | case3 changes run rest htag ih => exact ih (List.forall_mem_cons.1 hpos).2
  | case4 changes run rest htag ih =>
    obtain ⟨hrun, hrest⟩ := List.forall_mem_cons.1 hpos
    exact List.forall_mem_append.2 ⟨hedits changes, List.forall_mem_cons.2 ⟨hrun, ih hrest⟩⟩

theorem isSolid_of_mem_joinKeeps {edits : List Edit} (h : ∀ edit ∈ edits, edit.IsSolid) :
    ∀ edit ∈ joinKeeps edits, edit.IsSolid := by
  fun_induction joinKeeps edits with
  | case1 => simp
  | case2 o n length rest _ _ more edits heq ih =>
    obtain ⟨hfirst, hrest⟩ := List.forall_mem_cons.1 h
    have hjoined := ih hrest
    rw [heq] at hjoined
    exact List.forall_mem_cons.2 ⟨Nat.add_pos_left hfirst _, (List.forall_mem_cons.1 hjoined).2⟩
  | case3 o n length rest _ ih =>
    obtain ⟨hfirst, hrest⟩ := List.forall_mem_cons.1 h
    exact List.forall_mem_cons.2 ⟨hfirst, ih hrest⟩
  | case4 edit rest _ ih =>
    obtain ⟨hfirst, hrest⟩ := List.forall_mem_cons.1 h
    exact List.forall_mem_cons.2 ⟨hfirst, ih hrest⟩

theorem Fits.pos_of_mem {runs : List Run} (h : Fits old new o n runs o' n') :
    ∀ run ∈ runs, 0 < run.length := by
  induction h with
  | nil => simp
  | equal hpos _ _ ih => exact List.forall_mem_cons.2 ⟨hpos, ih⟩
  | delete hpos _ _ ih => exact List.forall_mem_cons.2 ⟨hpos, ih⟩
  | insert hpos _ _ ih => exact List.forall_mem_cons.2 ⟨hpos, ih⟩

theorem alternating_edits {runs : List Run} (h : Fits old new o n runs o' n') :
    Alternating (edits runs) where
  kinds := isChain_joinKeeps (isChain_changesThen _ _)
  inner front edit back heq _ _ := by
    have hmem : edit ∈ edits runs := by
      rw [heq]
      exact List.mem_append_right _ List.mem_cons_self
    exact isSolid_of_mem_joinKeeps (isSolid_of_mem_changesThen h.pos_of_mem) edit hmem

/-! ### Hunks -/

/-- A hunk leads from positions in both sequences to others. It begins and ends with kept elements, unless
it lies at that end of both sequences. -/
structure IsHunk (old new : List α) (o n : Nat) (hunk : List Edit) (o' n' : Nat) : Prop where
  covers : Covers old new o n hunk o' n'
  alternating : Alternating hunk
  begins : hunk.head?.any Edit.isKeep = true ∨ o = 0 ∧ n = 0
  ends : hunk.getLast?.any Edit.isKeep = true ∨ o' = old.length ∧ n' = new.length

/-- Hunks in order from positions in both sequences to others, with the same elements in both between
them. -/
inductive Cut (old new : List α) : Nat → Nat → List (List Edit) → Nat → Nat → Prop
  | nil {o n gap : Nat} (hgap : Shared old new o n gap) : Cut old new o n [] (o + gap) (n + gap)
  | cons {o n gap o₁ n₁ o' n' : Nat} {hunk : List Edit} {more : List (List Edit)}
      (hgap : Shared old new o n gap) (hhunk : IsHunk old new (o + gap) (n + gap) hunk o₁ n₁)
      (hmore : Cut old new o₁ n₁ more o' n') : Cut old new o n (hunk :: more) o' n'

theorem Shared.prepend {gap : Nat} {hunks : List (List Edit)} (hgap : Shared old new o n gap)
    (h : Cut old new (o + gap) (n + gap) hunks o' n') : Cut old new o n hunks o' n' := by
  cases h with
  | nil hnext =>
    rw [Nat.add_assoc, Nat.add_assoc]
    exact .nil (hgap.append hnext)
  | cons hnext hhunk hmore =>
    rw [Nat.add_assoc, Nat.add_assoc] at hhunk
    exact .cons (hgap.append hnext) hhunk hmore

theorem Cut.extend {gap : Nat} {hunks : List (List Edit)} (h : Cut old new o n hunks o' n')
    (hgap : Shared old new o' n' gap) : Cut old new o n hunks (o' + gap) (n' + gap) := by
  induction h with
  | nil hlast =>
    rw [Nat.add_assoc, Nat.add_assoc]
    exact .nil (hlast.append hgap)
  | cons hfirst hhunk _ ih => exact .cons hfirst hhunk (ih hgap)

section

variable {first second length context : Nat} {group rest : List Edit}

theorem Covers.of_keep (h : Covers old new o n (.keep first second length :: rest) o' n') :
    first = o ∧ second = n ∧ Shared old new o n length ∧
      Covers old new (o + length) (n + length) rest o' n' := by
  cases h with
  | keep hshared hrest => exact ⟨rfl, rfl, hshared, hrest⟩

/-- The edits up to a kept run, with only its first elements. -/
theorem IsHunk.untilKeep {o₁ n₁ : Nat}
    (h : IsHunk old new o n (group ++ .keep first second length :: rest) o' n')
    (hgroup : Covers old new o n group o₁ n₁) (hshared : Shared old new o₁ n₁ length)
    (hle : context ≤ length) :
    IsHunk old new o n (group ++ [.keep o₁ n₁ context]) (o₁ + context) (n₁ + context) where
  covers := hgroup.append (.keep (hshared.take hle) .nil)
  alternating := h.alternating.untilKeep
  begins := by
    have hbegins := h.begins
    cases group with
    | nil => exact .inl rfl
    | cons => exact hbegins
  ends := .inl (by simp [Edit.isKeep])

/-- The edits from a kept run on, with only its last elements. -/
theorem IsHunk.sinceKeep (group : List Edit) {o₁ n₁ : Nat}
    (h : IsHunk old new o n (group ++ .keep first second length :: rest) o' n')
    (hrest : Covers old new (o₁ + context) (n₁ + context) rest o' n')
    (hshared : Shared old new o₁ n₁ context) :
    IsHunk old new o₁ n₁ (.keep o₁ n₁ context :: rest) o' n' where
  covers := .keep hshared hrest
  alternating := h.alternating.sinceKeep
  begins := .inl rfl
  ends := by
    have hends := h.ends
    cases rest with
    | nil => exact .inl rfl
    | cons =>
      rw [List.getLast?_append_cons, List.getLast?_cons_cons] at hends
      rwa [List.getLast?_cons_cons]

/-- Cutting edits that make one hunk where a kept run is long makes hunks. The edits already read stand in
the group. -/
theorem cut_cutHunks (h : IsHunk old new o n (group.reverse ++ rest) o' n')
    (hstart : Shared old new o n 0) : Cut old new o n (cutHunks context group rest) o' n' := by
  fun_induction cutHunks context group rest generalizing o n with
  | case1 =>
    cases h.covers
    exact .nil hstart
  | case2 =>
    obtain ⟨rfl, rfl, hshared, hrest⟩ := h.covers.of_keep
    cases hrest
    exact .nil hshared
  | case3 group hne hkeep =>
    rw [List.append_nil] at h
    exact .cons hstart h (.nil (h.covers.inside hstart))
  | case4 group first second length rest hlong cut =>
    -- The first elements of the run end a hunk, its last begin the next, and the gap is in between.
    rename_i ih
    obtain ⟨o₁, n₁, hgroup, hback⟩ := h.covers.split
    obtain ⟨rfl, rfl, hshared, hrest⟩ := hback.of_keep
    have hcut : context ≤ cut ∧ cut + context = length := by omega
    have hlast : Shared old new (first + cut) (second + cut) context := by
      have := hshared.drop (Nat.le_of_add_right_le (Nat.le_of_eq hcut.2))
      rwa [show length - cut = context by omega] at this
    have hgap : Shared old new (first + context) (second + context) (cut - context) :=
      (hshared.drop (by omega)).take (by omega)
    have hrest' : Covers old new (first + cut + context) (second + cut + context) rest o' n' := by
      rwa [Nat.add_assoc, Nat.add_assoc, hcut.2]
    have hmore := ih (h.sinceKeep _ hrest' hlast) ⟨by have := hlast.old_le; omega,
      by have := hlast.new_le; omega, by simp⟩
    rw [List.reverse_cons]
    refine .cons hstart (h.untilKeep hgroup hshared (by omega)) (hgap.prepend ?_)
    rwa [Nat.add_assoc, Nat.add_assoc, Nat.add_sub_cancel' hcut.1]
  | case5 group first second length rest hshort ih =>
    refine ih ?_ hstart
    rwa [List.reverse_cons, List.append_assoc]
  | case6 group edit rest hchange ih =>
    refine ih ?_ hstart
    rwa [List.reverse_cons, List.append_assoc]

theorem isHunk_trimFront (context : Nat) {edits : List Edit} (h : IsHunk old new o n edits o' n')
    (hstart : Shared old new o n 0) :
    ∃ gap, Shared old new o n gap ∧
      IsHunk old new (o + gap) (n + gap) (trimFront context edits) o' n' := by
  fun_cases trimFront context edits with
  | case1 first second length rest cut =>
    obtain ⟨rfl, rfl, hshared, hrest⟩ := h.covers.of_keep
    have hcut : cut + (length - cut) = length := by omega
    refine ⟨cut, hshared.take (by omega), h.sinceKeep [] ?_ (hshared.drop (by omega))⟩
    rwa [Nat.add_assoc, Nat.add_assoc, hcut]
  | case2 => exact ⟨0, hstart, h⟩

theorem trimBack_concat (edits : List Edit) (last : Edit) :
    trimBack context (edits ++ [last]) = edits ++ trimBack context [last] := by
  induction edits with
  | nil => rfl
  | cons edit edits ih =>
    rw [List.cons_append, trimBack, ih, List.cons_append]
    simp

theorem isHunk_trimBack (context : Nat) {edits : List Edit} (h : IsHunk old new o n edits o' n')
    (hstart : Shared old new o n 0) :
    ∃ o₁ n₁ gap, Shared old new o₁ n₁ gap ∧ o' = o₁ + gap ∧ n' = n₁ + gap ∧
      IsHunk old new o n (trimBack context edits) o₁ n₁ := by
  have hend := h.covers.inside hstart
  rcases List.eq_nil_or_concat edits with rfl | ⟨front, last, rfl⟩
  · exact ⟨o', n', 0, hend, rfl, rfl, h⟩
  · rw [List.concat_eq_append] at h ⊢
    rw [trimBack_concat]
    cases last with
    | change => exact ⟨o', n', 0, hend, rfl, rfl, h⟩
    | keep first second length =>
      obtain ⟨o₁, n₁, hfront, hlast⟩ := h.covers.split
      obtain ⟨rfl, rfl, hshared, hnil⟩ := hlast.of_keep
      cases hnil
      have hmin : min length context + (length - min length context) = length := by omega
      refine ⟨_, _, length - min length context, hshared.drop (by omega), ?_, ?_,
        h.untilKeep hfront hshared (by omega)⟩
      · rw [Nat.add_assoc, hmin]
      · rw [Nat.add_assoc, hmin]

/-- The hunks of edits from the beginnings of two sequences to their ends. -/
theorem cut_hunks {edits : List Edit} (h : Covers old new 0 0 edits old.length new.length)
    (halternating : Alternating edits) :
    Cut old new 0 0 (hunks context edits) old.length new.length := by
  have hinside {o n : Nat} (ho : o ≤ old.length) (hn : n ≤ new.length) : Shared old new o n 0 :=
    ⟨ho, hn, by simp⟩
  have hwhole : IsHunk old new 0 0 edits old.length new.length :=
    ⟨h, halternating, .inr ⟨rfl, rfl⟩, .inr ⟨rfl, rfl⟩⟩
  obtain ⟨front, hfront, htrimmed⟩ :=
    isHunk_trimFront context hwhole (hinside (Nat.zero_le _) (Nat.zero_le _))
  have hstart := hinside hfront.old_le hfront.new_le
  obtain ⟨o₁, n₁, back, hback, ho, hn, hhunk⟩ := isHunk_trimBack context htrimmed hstart
  rw [ho, hn]
  exact hfront.prepend ((cut_cutHunks hhunk hstart).extend hback)

end

/-! ### Sequences that are the same -/

/-- Without a hunk the sequences are the same. -/
theorem Cut.eq_of_nil (h : Cut old new 0 0 [] old.length new.length) : old = new := by
  generalize ho : old.length = o', hn : new.length = n' at h
  cases h with
  | nil hgap =>
    refine List.ext_getElem? fun i => ?_
    by_cases hi : i < old.length
    · have := hgap.same i (by omega)
      rwa [Nat.zero_add] at this
    · rw [List.getElem?_eq_none (by omega), List.getElem?_eq_none (by omega)]

variable [DecidableEq α]

/-- The hunks between two sequences. -/
theorem cut_hunks_script (old new : List α) (context : Nat) :
    Cut old new 0 0 (hunks context (edits (compact old.toArray new.toArray (script old new))))
      old.length new.length := by
  have hfits : Fits old new 0 0 (compact old.toArray new.toArray (script old new)) old.length
      new.length := fits_compact (fits_script old new)
  exact cut_hunks (covers_edits hfits) (alternating_edits hfits)

theorem hunks_self (a : List α) (context : Nat) :
    hunks context (edits (compact a.toArray a.toArray (script a a))) = [] := by
  rw [script_self, runOf]
  split
  · rfl
  · have hcut : ¬2 * context < min (a.length - (a.length - context)) context := by omega
    simp [compact, moveAll, edits, changesThen, Changes.edits, joinKeeps, hunks, trimFront, trimBack,
      cutHunks, hcut]

theorem hunks_eq_nil_iff (old new : List α) (context : Nat) :
    hunks context (edits (compact old.toArray new.toArray (script old new))) = [] ↔ old = new := by
  constructor
  · intro h
    have hcut := cut_hunks_script old new context
    rw [h] at hcut
    exact hcut.eq_of_nil
  · rintro rfl
    exact hunks_self old context

end AssetBake.Diff
