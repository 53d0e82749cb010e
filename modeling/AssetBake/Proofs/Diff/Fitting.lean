import AssetBake.Diff.Compact

/-!
# Runs that fit

A script fits two sequences if its runs lead from one end of both to the other: what it keeps is the same
in both, and what it deletes and inserts is what lies between. A script from the search fits, wherever
the search cuts the sequences.
-/

namespace AssetBake.Diff

variable {α : Type} {old new : List α} {o n o' n' length : Nat} {runs : List Run}

/-! ### Shared stretches -/

/-- Two sequences share so many elements from the positions on. -/
structure Shared (old new : List α) (o n length : Nat) : Prop where
  old_le : o + length ≤ old.length
  new_le : n + length ≤ new.length
  same : ∀ i < length, old[o + i]? = new[n + i]?

theorem Shared.append {more : Nat} (h : Shared old new o n length)
    (h' : Shared old new (o + length) (n + length) more) : Shared old new o n (length + more) where
  old_le := by have := h'.old_le; omega
  new_le := by have := h'.new_le; omega
  same i hi := by
    by_cases hfirst : i < length
    · exact h.same i hfirst
    · have hsame := h'.same (i - length) (by omega)
      rwa [show o + length + (i - length) = o + i by omega,
        show n + length + (i - length) = n + i by omega] at hsame

theorem Shared.take {fewer : Nat} (h : Shared old new o n length) (hle : fewer ≤ length) :
    Shared old new o n fewer where
  old_le := by have := h.old_le; omega
  new_le := by have := h.new_le; omega
  same i hi := h.same i (by omega)

theorem Shared.drop {skipped : Nat} (h : Shared old new o n length) (hle : skipped ≤ length) :
    Shared old new (o + skipped) (n + skipped) (length - skipped) where
  old_le := by have := h.old_le; omega
  new_le := by have := h.new_le; omega
  same i hi := by
    have hsame := h.same (skipped + i) (by omega)
    rwa [← Nat.add_assoc, ← Nat.add_assoc] at hsame

/-! ### Scripts -/

/-- The runs lead from positions in both sequences to others. Of a run that only deletes or only inserts
the place in the other sequence may be wrong. -/
inductive Fits (old new : List α) : Nat → Nat → List Run → Nat → Nat → Prop
  | nil {o n : Nat} : Fits old new o n [] o n
  | equal {o n length o' n' : Nat} {runs : List Run} (hpos : 0 < length)
      (hshared : Shared old new o n length)
      (hrest : Fits old new (o + length) (n + length) runs o' n') :
      Fits old new o n (⟨.equal, o, n, length⟩ :: runs) o' n'
  | delete {o n at' length o' n' : Nat} {runs : List Run} (hpos : 0 < length)
      (hle : o + length ≤ old.length) (hrest : Fits old new (o + length) n runs o' n') :
      Fits old new o n (⟨.delete, o, at', length⟩ :: runs) o' n'
  | insert {o n at' length o' n' : Nat} {runs : List Run} (hpos : 0 < length)
      (hle : n + length ≤ new.length) (hrest : Fits old new o (n + length) runs o' n') :
      Fits old new o n (⟨.insert, at', n, length⟩ :: runs) o' n'

theorem Fits.length_pos {run : Run} (h : Fits old new o n (run :: runs) o' n') :
    0 < run.length := by
  cases h with
  | equal hpos => exact hpos
  | delete hpos => exact hpos
  | insert hpos => exact hpos

theorem Fits.append {more : List Run} {o'' n'' : Nat} (h : Fits old new o n runs o' n')
    (h' : Fits old new o' n' more o'' n'') : Fits old new o n (runs ++ more) o'' n'' := by
  induction h with
  | nil => exact h'
  | equal hpos hshared _ ih => exact .equal hpos hshared (ih h')
  | delete hpos hle _ ih => exact .delete hpos hle (ih h')
  | insert hpos hle _ ih => exact .insert hpos hle (ih h')

theorem Fits.split {more : List Run} (h : Fits old new o n (runs ++ more) o' n') :
    ∃ o₁ n₁, Fits old new o n runs o₁ n₁ ∧ Fits old new o₁ n₁ more o' n' := by
  induction runs generalizing o n with
  | nil => exact ⟨o, n, .nil, h⟩
  | cons run runs ih =>
    cases h with
    | equal hpos hshared hrest =>
      obtain ⟨o₁, n₁, hfront, hback⟩ := ih hrest
      exact ⟨o₁, n₁, .equal hpos hshared hfront, hback⟩
    | delete hpos hle hrest =>
      obtain ⟨o₁, n₁, hfront, hback⟩ := ih hrest
      exact ⟨o₁, n₁, .delete hpos hle hfront, hback⟩
    | insert hpos hle hrest =>
      obtain ⟨o₁, n₁, hfront, hback⟩ := ih hrest
      exact ⟨o₁, n₁, .insert hpos hle hfront, hback⟩

/-- The last runs may be replaced by others that lead to the same end. -/
theorem Fits.replace {front back back' : List Run} (h : Fits old new o n (front ++ back) o' n')
    (himp : ∀ o₁ n₁, Fits old new o₁ n₁ back o' n' → Fits old new o₁ n₁ back' o' n') :
    Fits old new o n (front ++ back') o' n' := by
  obtain ⟨o₁, n₁, hfront, hback⟩ := h.split
  exact hfront.append (himp o₁ n₁ hback)

/-! ### Runs that may be empty -/

theorem Shared.fits_runOf (h : Shared old new o n length) :
    Fits old new o n (runOf .equal o n length) (o + length) (n + length) := by
  rw [runOf]
  split
  · next hzero =>
    rw [hzero]
    exact .nil
  · next hpos => exact .equal (Nat.pos_of_ne_zero hpos) h .nil

theorem fits_runOf_delete (at' : Nat) (h : o + length ≤ old.length) :
    Fits old new o n (runOf .delete o at' length) (o + length) n := by
  rw [runOf]
  split
  · next hzero =>
    rw [hzero]
    exact .nil
  · next hpos => exact .delete (Nat.pos_of_ne_zero hpos) h .nil

theorem fits_runOf_insert (at' : Nat) (h : n + length ≤ new.length) :
    Fits old new o n (runOf .insert at' n length) o (n + length) := by
  rw [runOf]
  split
  · next hzero =>
    rw [hzero]
    exact .nil
  · next hpos => exact .insert (Nat.pos_of_ne_zero hpos) h .nil

/-! ### Parts -/

/-- A sequence stands in another at a position. -/
structure Part (whole : List α) (start : Nat) (part : List α) : Prop where
  le : start + part.length ≤ whole.length
  same : ∀ i < part.length, whole[start + i]? = part[i]?

theorem Part.take {part : List α} {start : Nat} (h : Part old start part) (k : Nat) :
    Part old start (part.take k) where
  le := by have := h.le; simp only [List.length_take]; omega
  same i hi := by
    rw [List.length_take] at hi
    rw [h.same i (by omega), List.getElem?_take_of_lt (by omega)]

theorem Part.drop {part : List α} {start : Nat} (h : Part old start part) {k : Nat}
    (hk : k ≤ part.length) : Part old (start + k) (part.drop k) where
  le := by have := h.le; simp only [List.length_drop]; omega
  same i hi := by
    rw [List.length_drop] at hi
    rw [Nat.add_assoc, h.same (k + i) (by omega), List.getElem?_drop]

/-! ### Shared ends -/

section

variable [DecidableEq α] {a b : List α}

theorem sharedPrefix_le (a b : List α) :
    sharedPrefix a b ≤ a.length ∧ sharedPrefix a b ≤ b.length := by
  fun_induction sharedPrefix a b with
  | case1 => simp only [List.length_cons]; omega
  | case2 => simp
  | case3 => simp

theorem getElem?_of_lt_sharedPrefix {i : Nat} (h : i < sharedPrefix a b) : a[i]? = b[i]? := by
  induction a generalizing b i with
  | nil => simp [sharedPrefix] at h
  | cons x a ih =>
    cases b with
    | nil => simp [sharedPrefix] at h
    | cons y b =>
      rw [sharedPrefix] at h
      split at h
      · next hxy =>
        cases i with
        | zero => simp [hxy]
        | succ i => simpa using ih (b := b) (i := i) (by omega)
      · omega

theorem sharedSuffix_le (a b : List α) :
    sharedSuffix a b ≤ a.length ∧ sharedSuffix a b ≤ b.length := by
  rw [sharedSuffix]
  simpa using sharedPrefix_le a.reverse b.reverse

theorem getElem?_of_lt_sharedSuffix {i : Nat} (h : i < sharedSuffix a b) :
    a[a.length - sharedSuffix a b + i]? = b[b.length - sharedSuffix a b + i]? := by
  obtain ⟨ha, hb⟩ := sharedSuffix_le a b
  have hsame := getElem?_of_lt_sharedPrefix (a := a.reverse) (b := b.reverse)
    (i := sharedSuffix a b - 1 - i) (by rw [sharedSuffix] at *; omega)
  rw [List.getElem?_reverse (by omega), List.getElem?_reverse (by omega)] at hsame
  rwa [show a.length - 1 - (sharedSuffix a b - 1 - i) = a.length - sharedSuffix a b + i by omega,
    show b.length - 1 - (sharedSuffix a b - 1 - i) = b.length - sharedSuffix a b + i by omega]
    at hsame

theorem sharedPrefix_self (a : List α) : sharedPrefix a a = a.length := by
  induction a with
  | nil => rfl
  | cons x a ih => rw [sharedPrefix, if_pos rfl, ih, List.length_cons]

theorem sharedPrefix_nil (a : List α) : sharedPrefix a [] = 0 := by
  have := (sharedPrefix_le a []).2
  simpa using this

theorem sharedSuffix_nil (a : List α) : sharedSuffix a [] = 0 := by
  have := (sharedSuffix_le a []).2
  simpa using this

/-! ### The script of a search -/

theorem shared_sharedPrefix (ha : Part old o a) (hb : Part new n b) :
    Shared old new o n (sharedPrefix a b) where
  old_le := by have := ha.le; have := sharedPrefix_le a b; omega
  new_le := by have := hb.le; have := sharedPrefix_le a b; omega
  same i hi := by
    have := sharedPrefix_le a b
    rw [ha.same i (by omega), hb.same i (by omega), getElem?_of_lt_sharedPrefix hi]

theorem shared_sharedSuffix (ha : Part old o a) (hb : Part new n b) :
    Shared old new (o + (a.length - sharedSuffix a b)) (n + (b.length - sharedSuffix a b))
      (sharedSuffix a b) where
  old_le := by have := ha.le; have := sharedSuffix_le a b; omega
  new_le := by have := hb.le; have := sharedSuffix_le a b; omega
  same i hi := by
    have := sharedSuffix_le a b
    rw [Nat.add_assoc, Nat.add_assoc, ha.same _ (by omega), hb.same _ (by omega),
      getElem?_of_lt_sharedSuffix hi]

/-- The script between two stretches leads from their starts to their ends, wherever the search for a
middle cuts them. -/
theorem fits_scriptAt (ha : Part old o a) (hb : Part new n b) :
    Fits old new o n (scriptAt o n a b) (o + a.length) (n + b.length) := by
  fun_induction scriptAt o n a b with
  | case1 o n a b front a1 b1 back a2 b2 inner ih ih' =>
    have hfront : front ≤ a.length ∧ front ≤ b.length := sharedPrefix_le a b
    have hback : back ≤ a1.length ∧ back ≤ b1.length := sharedSuffix_le a1 b1
    have ha1 : Part old (o + front) a1 := ha.drop hfront.1
    have hb1 : Part new (n + front) b1 := hb.drop hfront.2
    have ha2 : Part old (o + front) a2 := ha1.take _
    have hb2 : Part new (n + front) b2 := hb1.take _
    have hlength : a2.length = a1.length - back ∧ b2.length = b1.length - back := by
      simp only [a2, b2, List.length_take]
      omega
    have hend : o + front + a2.length + back = o + a.length ∧
        n + front + b2.length + back = n + b.length := by
      simp only [a1, b1, List.length_drop] at hlength hback
      omega
    -- Whatever the middle is, two nonempty stretches may be deleted and inserted as a whole.
    have hwhole (hne : ¬(a2.isEmpty = true ∨ b2.isEmpty = true)) :
        Fits old new (o + front) (n + front)
          [⟨.delete, o + front, n + front, a2.length⟩, ⟨.insert, o + front, n + front, b2.length⟩]
          (o + front + a2.length) (n + front + b2.length) := by
      simp only [List.isEmpty_iff_length_eq_zero, not_or] at hne
      exact .delete (by omega) ha2.le (.insert (by omega) hb2.le .nil)
    have hinner : Fits old new (o + front) (n + front) inner (o + front + a2.length)
        (n + front + b2.length) := by
      unfold inner
      split
      · exact (fits_runOf_delete _ ha2.le).append (fits_runOf_insert _ hb2.le)
      · next hne =>
        split
        · next x y _ =>
          split
          · next hxy =>
            have hfirst := ih x y hxy (ha2.take x) (hb2.take y)
            have hsecond := ih' x y hxy (ha2.drop hxy.1) (hb2.drop hxy.2.1)
            simp only [List.length_take, List.length_drop, Nat.min_eq_left hxy.1,
              Nat.min_eq_left hxy.2.1, Nat.add_assoc, Nat.add_sub_cancel' hxy.1,
              Nat.add_sub_cancel' hxy.2.1] at hfirst hsecond
            simpa only [Nat.add_assoc] using hfirst.append hsecond
          · exact hwhole hne
        · exact hwhole hne
    have hsuffix := shared_sharedSuffix ha1 hb1
    rw [← hend.1, ← hend.2]
    refine ((shared_sharedPrefix ha hb).fits_runOf.append hinner).append ?_
    rw [hlength.1, hlength.2]
    exact hsuffix.fits_runOf

theorem fits_script (old new : List α) :
    Fits old new 0 0 (script old new) old.length new.length := by
  have hpart (l : List α) : Part l 0 l := ⟨by omega, fun i _ => by rw [Nat.zero_add]⟩
  simpa [script] using fits_scriptAt (hpart old) (hpart new)

/-- A sequence and itself need no edit. -/
theorem script_self (a : List α) : script a a = runOf .equal 0 0 a.length := by
  rw [script, scriptAt]
  simp [sharedPrefix_self, sharedSuffix_nil, runOf]

end

end AssetBake.Diff
