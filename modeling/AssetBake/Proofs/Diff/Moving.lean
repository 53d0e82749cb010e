import AssetBake.Proofs.Diff.Fitting

/-!
# Moving runs

Moving the deletions and the insertions of a script about keeps it fitting the two sequences. Only the
place of a moved run in the other sequence is not brought up to date.
-/

namespace AssetBake.Diff

variable {α : Type} {old new : List α} {o n o' n' k length : Nat} {runs : List Run}

/-! ### Room for kept elements -/

theorem fits_growFront (hpos : 0 < k) (hshared : Shared old new o n k)
    (h : Fits old new (o + k) (n + k) runs o' n') :
    Fits old new o n (growFront k ⟨.equal, o, n, k⟩ runs) o' n' := by
  cases h with
  | nil => exact .equal hpos hshared .nil
  | equal hlength hnext hrest =>
    rw [growFront, if_pos rfl]
    simp only [Nat.add_sub_cancel]
    refine .equal (by omega) ?_ ?_
    · rw [Nat.add_comm]
      exact hshared.append hnext
    · rwa [Nat.add_comm _ k, ← Nat.add_assoc, ← Nat.add_assoc]
  | delete hlength hle hrest => exact .equal hpos hshared (.delete hlength hle hrest)
  | insert hlength hle hrest => exact .equal hpos hshared (.insert hlength hle hrest)

theorem Fits.last_equal {earlier : List Run} {last : Run} (htag : last.tag = .equal)
    (h : Fits old new o n (earlier ++ [last]) o' n') :
    ∃ o₁ n₁, Fits old new o n earlier o₁ n₁ ∧ 0 < last.length ∧ Shared old new o₁ n₁ last.length ∧
      last = ⟨.equal, o₁, n₁, last.length⟩ ∧ o' = o₁ + last.length ∧ n' = n₁ + last.length := by
  obtain ⟨o₁, n₁, hearlier, hlast⟩ := h.split
  cases hlast with
  | equal hpos hshared hrest =>
    cases hrest
    exact ⟨o₁, n₁, hearlier, hpos, hshared, rfl, rfl, rfl⟩
  | delete => cases htag
  | insert => cases htag

theorem fits_growBack {before : List Run} {o₁ n₁ : Nat} (hpos : 0 < k)
    (hshared : Shared old new o₁ n₁ k) (h : Fits old new o n before.reverse o₁ n₁) :
    Fits old new o n (growBack k ⟨.equal, o₁, n₁, k⟩ before).reverse (o₁ + k) (n₁ + k) := by
  rw [growBack.eq_def]
  split
  · next last earlier =>
    rw [List.reverse_cons] at h
    split
    · next htag =>
      obtain ⟨o₂, n₂, hearlier, hlast, hkept, heq, rfl, rfl⟩ := h.last_equal htag
      rw [List.reverse_cons, heq]
      refine hearlier.append ?_
      rw [Nat.add_assoc, Nat.add_assoc]
      exact .equal (by omega) (hkept.append hshared) .nil
    · rw [List.reverse_cons, List.reverse_cons]
      exact h.append (.equal hpos hshared .nil)
  · cases h
    exact .equal hpos hshared .nil

/-! ### One step of a run -/

/-- Neighbours of one kind are one run. -/
theorem Fits.merge {last run : Run} (hlast : last.tag ≠ .equal) (htag : last.tag = run.tag)
    (h : Fits old new o n (last :: run :: runs) o' n') :
    Fits old new o n ({ last with length := last.length + run.length } :: runs) o' n' := by
  cases h with
  | equal => exact absurd rfl hlast
  | delete hpos hle hrest =>
    cases hrest with
    | equal => cases htag
    | delete _ hle' hrest' =>
      dsimp only
      exact .delete (by omega) (by omega) (by rwa [← Nat.add_assoc])
    | insert => cases htag
  | insert hpos hle hrest =>
    cases hrest with
    | equal => cases htag
    | delete => cases htag
    | insert _ hle' hrest' =>
      dsimp only
      exact .insert (by omega) (by omega) (by rwa [← Nat.add_assoc])

/-- A deletion and an insertion may change places. -/
theorem Fits.swap {last run : Run} (hlast : last.tag ≠ .equal) (hrun : run.tag ≠ .equal)
    (htag : last.tag ≠ run.tag) (h : Fits old new o n (last :: run :: runs) o' n') :
    Fits old new o n (run :: last :: runs) o' n' := by
  cases h with
  | equal => exact absurd rfl hlast
  | delete hpos hle hrest =>
    cases hrest with
    | equal => exact absurd rfl hrun
    | delete => exact absurd rfl htag
    | insert hpos' hle' hrest' => exact .insert hpos' hle' (.delete hpos hle hrest')
  | insert hpos hle hrest =>
    cases hrest with
    | equal => exact absurd rfl hrun
    | delete hpos' hle' hrest' => exact .delete hpos' hle' (.insert hpos hle hrest')
    | insert => exact absurd rfl htag

/-! ### Slices -/

theorem length_slice (a : Array α) (first last : Nat) :
    (slice a first last).length = min last a.size - first := by
  rw [slice, Array.length_toList, Array.size_extract]

theorem length_slice_add {a : Array α} {first : Nat} (h : first + length ≤ a.toList.length) :
    (slice a first (first + length)).length = length := by
  rw [Array.length_toList] at h
  rw [length_slice]
  omega

theorem part_slice {a : Array α} {first : Nat} (h : first + length ≤ a.toList.length) :
    Part a.toList first (slice a first (first + length)) where
  le := by rwa [length_slice_add h]
  same i hi := by
    rw [length_slice_add h] at hi
    rw [slice, Array.getElem?_toList, Array.getElem?_toList, Array.getElem?_extract,
      if_pos (by rw [Array.length_toList] at h; omega)]

section

variable {old new : Array α} {last run next : Run} {after before later : List Run}

/-- A deletion adds nothing that kept elements could share. -/
theorem addedBy_of_delete (h : run.tag = .delete) : addedBy new run = [] := by
  rw [addedBy, Run.newEnd, if_pos h, List.eq_nil_iff_length_eq_zero, length_slice]
  omega

/-! ### A run in focus -/

def Focus.toRuns (f : Focus) : List Run :=
  f.before.reverse ++ f.run :: f.after

/-- A script that fits, with a deletion or an insertion in focus. -/
structure Focus.Fits (old new : Array α) (o n : Nat) (f : Focus) (o' n' : Nat) : Prop where
  edits : f.run.tag ≠ .equal
  fits : Diff.Fits old.toList new.toList o n f.toRuns o' n'

/-- What follows the earlier runs may be replaced. -/
theorem Focus.Fits.replace_before {f : Focus} {earlier back : List Run}
    (h : f.Fits old new o n o' n') (hbefore : f.before = last :: earlier)
    (himp : ∀ o₁ n₁, Diff.Fits old.toList new.toList o₁ n₁ (last :: f.run :: f.after) o' n' →
      Diff.Fits old.toList new.toList o₁ n₁ back o' n') :
    Diff.Fits old.toList new.toList o n (earlier.reverse ++ back) o' n' := by
  have hfits := h.fits
  rw [Focus.toRuns, hbefore, List.reverse_cons, List.append_assoc] at hfits
  exact hfits.replace himp

theorem Focus.Fits.replace_after {f : Focus} {back : List Run}
    (h : f.Fits old new o n o' n') (hafter : f.after = next :: later)
    (himp : ∀ o₁ n₁, Diff.Fits old.toList new.toList o₁ n₁ (f.run :: next :: later) o' n' →
      Diff.Fits old.toList new.toList o₁ n₁ back o' n') :
    Diff.Fits old.toList new.toList o n (f.before.reverse ++ back) o' n' := by
  have hfits := h.fits
  rw [Focus.toRuns, hafter] at hfits
  exact hfits.replace himp

/-! ### Elements shared with an insertion -/

variable [DecidableEq α] {kept added : Nat}

theorem shared_of_sharedSuffix (hkept : o + kept ≤ old.toList.length)
    (hadded : n + added ≤ new.toList.length)
    (hk : sharedSuffix (slice old o (o + kept)) (slice new n (n + added)) = k) :
    k ≤ kept ∧ k ≤ added ∧
      Shared old.toList new.toList (o + (kept - k)) (n + (added - k)) k := by
  have hle := sharedSuffix_le (slice old o (o + kept)) (slice new n (n + added))
  have hshared := shared_sharedSuffix (part_slice hkept) (part_slice hadded)
  rw [length_slice_add hkept, length_slice_add hadded, hk] at hle hshared
  exact ⟨hle.1, hle.2, hshared⟩

theorem shared_of_sharedPrefix (hkept : o + kept ≤ old.toList.length)
    (hadded : n + added ≤ new.toList.length)
    (hk : sharedPrefix (slice old o (o + kept)) (slice new n (n + added)) = k) :
    k ≤ kept ∧ k ≤ added ∧ Shared old.toList new.toList o n k := by
  have hle := sharedPrefix_le (slice old o (o + kept)) (slice new n (n + added))
  have hshared := shared_sharedPrefix (part_slice hkept) (part_slice hadded)
  rw [length_slice_add hkept, length_slice_add hadded] at hle
  rw [hk] at hle hshared
  exact ⟨hle.1, hle.2, hshared⟩

/-- Kept elements that end with what an insertion adds may as well follow it. -/
theorem Fits.shiftUp (hlast : last.tag = .equal) (hrun : run.tag ≠ .equal)
    (hk : sharedSuffix (keptBy old last) (addedBy new run) = k) (hpos : 0 < k)
    (h : Fits old.toList new.toList o n (last :: run :: after) o' n') :
    Fits old.toList new.toList o n
      ((if last.length = k then [] else [{ last with length := last.length - k }]) ++
        { run with old := run.old - k, new := run.new - k } ::
          growFront k ⟨.equal, last.oldEnd - k, run.newEnd - k, k⟩ after) o' n' := by
  cases h with
  | delete => cases hlast
  | insert => cases hlast
  | @equal _ _ kept _ _ _ _ hkept hrest =>
    cases hrest with
    | equal => exact absurd rfl hrun
    | delete =>
      rw [addedBy_of_delete rfl, sharedSuffix_nil] at hk
      omega
    | @insert _ _ at' added _ _ _ hadded hle hafter =>
      obtain ⟨hkept', hadded', hmoved⟩ := shared_of_sharedSuffix hkept.old_le hle hk
      have hroom : Fits old.toList new.toList (o + (kept - k)) (n + kept - k + added)
          (growFront k ⟨.equal, o + kept - k, n + kept + added - k, k⟩ after) o' n' := by
        rw [show o + kept - k = o + (kept - k) by omega,
          show n + kept + added - k = n + kept - k + added by omega]
        refine fits_growFront hpos ?_ ?_
        · rwa [show n + kept - k + added = n + kept + (added - k) by omega]
        · rwa [show o + (kept - k) + k = o + kept by omega,
            show n + kept - k + added + k = n + kept + added by omega]
      have hinsert : Fits old.toList new.toList (o + (kept - k)) (n + kept - k)
          (⟨.insert, at' - k, n + kept - k, added⟩ ::
            growFront k ⟨.equal, o + kept - k, n + kept + added - k, k⟩ after) o' n' :=
        .insert hadded (by omega) hroom
      change Fits _ _ o n ((if kept = k then [] else [⟨.equal, o, n, kept - k⟩]) ++
        ⟨.insert, at' - k, n + kept - k, added⟩ ::
          growFront k ⟨.equal, o + kept - k, n + kept + added - k, k⟩ after) o' n'
      -- The moved runs are the same whether or not any kept element stays in front of them.
      generalize Run.mk .insert _ _ _ :: growFront k _ after = moved at hinsert ⊢
      split
      · next hall =>
        rwa [show o + (kept - k) = o by omega, show n + kept - k = n by omega] at hinsert
      · next hsome =>
        rw [show n + kept - k = n + (kept - k) by omega] at hinsert
        exact .equal (by omega) (hkept.take (by omega)) hinsert

/-- Kept elements that begin with what an insertion adds may as well precede it. -/
theorem Fits.shiftDown (hnext : next.tag = .equal) (hrun : run.tag ≠ .equal)
    (hk : sharedPrefix (keptBy old next) (addedBy new run) = k) (hpos : 0 < k)
    (h : Fits old.toList new.toList o n (before.reverse ++ run :: next :: later) o' n') :
    Fits old.toList new.toList o n
      ((growBack k ⟨.equal, next.old, run.new, k⟩ before).reverse ++
        { run with old := run.old + k, new := run.new + k } ::
          ((if next.length = k then []
            else [⟨.equal, next.old + k, next.new + k, next.length - k⟩]) ++ later)) o' n' := by
  obtain ⟨o₁, n₁, hbefore, hrest⟩ := h.split
  cases hrest with
  | equal => exact absurd rfl hrun
  | delete =>
    rw [addedBy_of_delete rfl, sharedPrefix_nil] at hk
    omega
  | @insert _ _ at' added _ _ _ hadded hle hrest =>
    cases hrest with
    | delete => cases hnext
    | insert => cases hnext
    | @equal _ _ kept _ _ _ _ hkept hlater =>
      obtain ⟨hkept', hadded', hmoved⟩ := shared_of_sharedPrefix hkept.old_le hle hk
      have hle' := hkept.new_le
      dsimp only
      refine (fits_growBack hpos hmoved hbefore).append (.insert hadded (by omega) ?_)
      have hrest := hkept.drop hkept'
      rw [show n₁ + added + k = n₁ + k + added by omega] at hrest ⊢
      split
      · next hall =>
        rwa [show o₁ + kept = o₁ + k by omega, show n₁ + added + kept = n₁ + k + added by omega]
          at hlater
      · next hsome =>
        refine .equal (by omega) hrest ?_
        rwa [show o₁ + k + (kept - k) = o₁ + kept by omega,
          show n₁ + k + added + (kept - k) = n₁ + added + kept by omega]

/-! ### The moves of a run -/

theorem fits_moveUp {fuel : Nat} {f : Focus} (h : f.Fits old new o n o' n') :
    (moveUp old new fuel f).Fits old new o n o' n' := by
  fun_induction moveUp old new fuel f with
  | case1 => exact h
  | case2 => exact h
  | case3 fuel f last earlier hbefore htag k hk hlength ih =>
    -- A run of a script that fits is not empty.
    refine ih ⟨h.edits, h.replace_before hbefore fun o₁ n₁ hfits => ?_⟩
    have := hfits.length_pos
    omega
  | case4 => exact h
  | case5 fuel f last earlier hbefore htag k hk gap run after hlength ih =>
    refine ih ⟨h.edits, h.replace_before hbefore fun o₁ n₁ hfits => ?_⟩
    have hshift := hfits.shiftUp htag h.edits rfl (Nat.pos_of_ne_zero hk)
    rwa [if_pos hlength] at hshift
  | case6 fuel f last earlier hbefore htag k hk gap run after hlength ih =>
    refine ih ⟨h.edits, ?_⟩
    rw [Focus.toRuns, List.reverse_cons, List.append_assoc]
    refine h.replace_before hbefore fun o₁ n₁ hfits => ?_
    have hshift := hfits.shiftUp htag h.edits rfl (Nat.pos_of_ne_zero hk)
    rwa [if_neg hlength] at hshift
  | case7 fuel f last earlier hbefore htag hsame ih =>
    exact ih ⟨htag, h.replace_before hbefore fun o₁ n₁ hfits => hfits.merge htag hsame⟩
  | case8 fuel f last earlier hbefore htag hother ih =>
    exact ih ⟨h.edits, h.replace_before hbefore fun o₁ n₁ hfits => hfits.swap htag h.edits hother⟩

theorem fits_moveDown {fuel : Nat} {f : Focus} (h : f.Fits old new o n o' n') :
    (moveDown old new fuel f).Fits old new o n o' n' := by
  fun_induction moveDown old new fuel f with
  | case1 => exact h
  | case2 => exact h
  | case3 fuel f next later hafter htag k hk hlength ih =>
    -- A run of a script that fits is not empty.
    refine ih ⟨h.edits, h.replace_after hafter fun o₁ n₁ hfits => ?_⟩
    have hsplit : Fits _ _ o₁ n₁ ([f.run] ++ next :: later) o' n' := hfits
    obtain ⟨o₂, n₂, -, hnext⟩ := hsplit.split
    have := hnext.length_pos
    omega
  | case4 => exact h
  | case5 fuel f next later hafter htag k hk gap run before hlength ih =>
    have hfits := h.fits
    rw [Focus.toRuns, hafter] at hfits
    have hshift := hfits.shiftDown htag h.edits rfl (Nat.pos_of_ne_zero hk)
    rw [if_pos hlength] at hshift
    exact ih ⟨h.edits, hshift⟩
  | case6 fuel f next later hafter htag k hk gap run before hlength ih =>
    have hfits := h.fits
    rw [Focus.toRuns, hafter] at hfits
    have hshift := hfits.shiftDown htag h.edits rfl (Nat.pos_of_ne_zero hk)
    rw [if_neg hlength] at hshift
    exact ih ⟨h.edits, hshift⟩
  | case7 fuel f next later hafter htag hsame ih =>
    exact ih ⟨h.edits, h.replace_after hafter fun o₁ n₁ hfits => hfits.merge h.edits hsame.symm⟩
  | case8 fuel f next later hafter htag hother ih =>
    refine ih ⟨h.edits, ?_⟩
    rw [Focus.toRuns, List.reverse_cons, List.append_assoc]
    exact h.replace_after hafter fun o₁ n₁ hfits => hfits.swap h.edits htag (Ne.symm hother)

/-! ### Whole scripts -/

theorem fits_moveAll {fuel : Nat} {tag : Tag} (htag : tag ≠ .equal)
    (h : Fits old.toList new.toList o n (before.reverse ++ after) o' n') :
    Fits old.toList new.toList o n (moveAll old new tag fuel before after) o' n' := by
  fun_induction moveAll old new tag fuel before after with
  | case1 => simpa using h
  | case2 => exact h
  | case3 fuel before run after hrun up down ih =>
    have hup : up.Fits old new o n o' n' := fits_moveUp ⟨by rwa [hrun], h⟩
    have hdown : down.Fits old new o n o' n' := fits_moveDown hup
    refine ih ?_
    rw [List.reverse_cons, List.append_assoc]
    exact hdown.fits
  | case4 fuel before run after hrun ih =>
    refine ih ?_
    rwa [List.reverse_cons, List.append_assoc]

theorem fits_compact {runs : List Run} (h : Fits old.toList new.toList o n runs o' n') :
    Fits old.toList new.toList o n (compact old new runs) o' n' :=
  fits_moveAll (by decide) (fits_moveAll (by decide) h)

end

end AssetBake.Diff
