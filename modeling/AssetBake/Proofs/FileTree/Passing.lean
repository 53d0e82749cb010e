import AssetBake.Proofs.FileTree.Following
import Mathlib

/-!
# What paths pass

Following steps looks up one place after another. What stands at a place that is never looked up, or
below it, has no part in where the steps lead: they lead to the same spot, or fail the same way, in the
tree without it.
-/

namespace AssetBake.FileTree

variable {t : FileTree} {mark place at' : Location} {links : Nat} {steps front back : List Component}
  {n : Name}

/-! ### Looking up a place -/

/-- Taking steps from a place looks up the mark, with so many links to be followed at most. -/
inductive Passes (t : FileTree) (mark : Location) : Nat → Location → List Component → Prop
  | here {links : Nat} {at' : Location} {n : Name} {rest : List Component}
      (hdir : t.isDirectory at' = true) (hlength : n.bytes.length ≤ maxNameLength)
      (hmark : n :: at' = mark) : Passes t mark links at' (.name n :: rest)
  | stay {links : Nat} {at' : Location} {step : Component} {rest : List Component}
      (hstep : step = .root ∨ step = .current) (hdir : t.isDirectory at' = true)
      (hrest : Passes t mark links at' rest) : Passes t mark links at' (step :: rest)
  | up {links : Nat} {at' : Location} {rest : List Component} (hdir : t.isDirectory at' = true)
      (hrest : Passes t mark links at'.tail rest) : Passes t mark links at' (.parent :: rest)
  | enter {links : Nat} {at' : Location} {n : Name} {e : Entry} {rest : List Component}
      (hdir : t.isDirectory at' = true) (hlength : n.bytes.length ≤ maxNameLength)
      (hentry : t.find? (n :: at') = some e) (hlink : ∀ target, e ≠ .link target)
      (hrest : Passes t mark links (n :: at') rest) : Passes t mark links at' (.name n :: rest)
  | link {links : Nat} {at' : Location} {n : Name} {target : Path} {rest : List Component}
      (hdir : t.isDirectory at' = true) (hlength : n.bytes.length ≤ maxNameLength)
      (hlink : t.find? (n :: at') = some (.link target)) (htarget : target.bytes ≠ [])
      (hrest : Passes t mark links (startOf at' target) (target.steps ++ rest)) :
      Passes t mark (links + 1) at' (.name n :: rest)

/-- No link resolves through the mark but those that stand there or below. -/
def Unlinked (t : FileTree) (mark : Location) : Prop :=
  ∀ n dir target, ¬mark <:+ n :: dir → t.find? (n :: dir) = some (.link target) →
    ¬Passes t mark maxLinks dir [.name n]

theorem not_passes_nil : ¬Passes t mark links at' [] := by
  intro h
  cases h

theorem Passes.mono {links' : Nat} (h : Passes t mark links at' steps) (hle : links ≤ links') :
    Passes t mark links' at' steps := by
  induction h generalizing links' with
  | here hdir hlength hmark => exact .here hdir hlength hmark
  | stay hstep hdir _ ih => exact .stay hstep hdir (ih hle)
  | up hdir _ ih => exact .up hdir (ih hle)
  | enter hdir hlength hentry hlink _ ih => exact .enter hdir hlength hentry hlink (ih hle)
  | link hdir hlength hlink htarget _ ih =>
    obtain ⟨more, rfl⟩ := Nat.exists_eq_add_of_le' (Nat.le_trans (Nat.le_add_left 1 _) hle)
    exact .link hdir hlength hlink htarget (ih (Nat.le_of_succ_le_succ hle))

/-- Either the first steps look up the place already, or the last ones do from where the first ones
end. -/
theorem Passes.split (h : Passes t mark links at' (front ++ back)) :
    Passes t mark links at' front ∨ ∃ links' mid, links' ≤ links ∧
      Leads t true links at' front (.present mid) ∧ Passes t mark links' mid back := by
  generalize hsteps : front ++ back = steps at h
  induction h generalizing front with
  | @here links at' n rest hdir hlength hmark =>
    cases front with
    | nil =>
      obtain rfl : back = _ := hsteps
      exact .inr ⟨links, at', Nat.le_refl _, .done, .here hdir hlength hmark⟩
    | cons first front =>
      obtain ⟨rfl, _⟩ := List.cons.inj hsteps
      exact .inl (.here hdir hlength hmark)
  | @stay links at' step rest hstep hdir hmore ih =>
    cases front with
    | nil =>
      obtain rfl : back = _ := hsteps
      exact .inr ⟨links, at', Nat.le_refl _, .done, .stay hstep hdir hmore⟩
    | cons first front =>
      obtain ⟨rfl, hrest⟩ := List.cons.inj hsteps
      obtain hfront | ⟨links', mid, hle, hfront, hback⟩ := ih hrest
      · exact .inl (.stay hstep hdir hfront)
      · exact .inr ⟨links', mid, hle, .stay hstep hdir hfront, hback⟩
  | @up links at' rest hdir hmore ih =>
    cases front with
    | nil =>
      obtain rfl : back = _ := hsteps
      exact .inr ⟨links, at', Nat.le_refl _, .done, .up hdir hmore⟩
    | cons first front =>
      obtain ⟨rfl, hrest⟩ := List.cons.inj hsteps
      obtain hfront | ⟨links', mid, hle, hfront, hback⟩ := ih hrest
      · exact .inl (.up hdir hfront)
      · exact .inr ⟨links', mid, hle, .up hdir hfront, hback⟩
  | @enter links at' n e rest hdir hlength hentry hlink hmore ih =>
    cases front with
    | nil =>
      obtain rfl : back = _ := hsteps
      exact .inr ⟨links, at', Nat.le_refl _, .done, .enter hdir hlength hentry hlink hmore⟩
    | cons first front =>
      obtain ⟨rfl, hrest⟩ := List.cons.inj hsteps
      obtain hfront | ⟨links', mid, hle, hfront, hback⟩ := ih hrest
      · exact .inl (.enter hdir hlength hentry hlink hfront)
      · exact .inr ⟨links', mid, hle, .enter hdir hlength hentry hlink hfront, hback⟩
  | @link links at' n target rest hdir hlength hlink htarget hmore ih =>
    cases front with
    | nil =>
      obtain rfl : back = _ := hsteps
      exact .inr ⟨links + 1, at', Nat.le_refl _, .done, .link hdir hlength hlink htarget hmore⟩
    | cons first front =>
      obtain ⟨rfl, rfl⟩ := List.cons.inj hsteps
      obtain hfront | ⟨links', mid, hle, hfront, hback⟩ := ih (List.append_assoc ..)
      · exact .inl (.link hdir hlength hlink htarget hfront)
      · exact .inr ⟨links', mid, Nat.le_succ_of_le hle,
          .link hdir hlength hlink (.inr rfl) htarget hfront, hback⟩

/-! ### The tree without the mark -/

theorem ne_nil_of_not_suffix (h : ¬mark <:+ place) : mark ≠ [] := by
  rintro rfl
  exact h (List.nil_suffix)

theorem find?_remove_of_not_suffix (h : ¬mark <:+ place) :
    (t.remove mark).find? place = t.find? place := by
  rw [t.find?_remove (ne_nil_of_not_suffix h), if_neg h]

theorem isDirectory_remove_of_not_suffix (h : ¬mark <:+ place) :
    (t.remove mark).isDirectory place = t.isDirectory place := by
  rw [isDirectory, find?_remove_of_not_suffix h, isDirectory]

theorem extends_remove (t : FileTree) (mark : Location) : Extends (t.remove mark) t := by
  intro place e h
  by_cases hne : mark = []
  · simpa [remove, hne] using h
  · rw [t.find?_remove hne] at h
    split at h
    · cases h
    · exact h

theorem not_suffix_of_find?_remove (hne : mark ≠ []) {e : Entry}
    (h : (t.remove mark).find? place = some e) : ¬mark <:+ place := by
  intro hbelow
  rw [t.find?_remove hne, if_pos hbelow] at h
  cases h

theorem not_suffix_cons (h : ¬mark <:+ at') (hne : n :: at' ≠ mark) : ¬mark <:+ n :: at' := by
  rw [List.suffix_cons_iff]
  rintro (heq | hbelow)
  · exact hne heq.symm
  · exact h hbelow

theorem not_suffix_tail (h : ¬mark <:+ at') : ¬mark <:+ at'.tail :=
  fun hbelow => h (hbelow.trans (List.tail_suffix at'))

theorem not_suffix_startOf (h : ¬mark <:+ at') (target : Path) : ¬mark <:+ startOf at' target := by
  rw [startOf]
  split
  · intro hroot
    exact ne_nil_of_not_suffix h (List.suffix_nil.1 hroot)
  · exact h

theorem not_suffix_of_isDirectory_remove (hne : mark ≠ [])
    (h : (t.remove mark).isDirectory place = true) : ¬mark <:+ place := by
  obtain ⟨mode, hmode⟩ := (isDirectory_iff _ _).1 h
  exact not_suffix_of_find?_remove hne hmode

/-- The other names of a directory stay in their order. -/
theorem names_remove (h : ¬mark <:+ place) :
    (t.remove mark).names place = (t.names place).filter fun n => n :: place ≠ mark := by
  simp only [names, remove, dif_neg (ne_nil_of_not_suffix h), List.filterMap_filter,
    List.filter_filterMap]
  apply List.filterMap_congr
  rintro ⟨_ | ⟨n, up⟩, e⟩ _
  · simp
  · by_cases hup : up = place
    · subst hup
      by_cases hmark : n :: up = mark
      · simp [hmark, Option.filter]
      · simp [hmark, not_suffix_cons h hmark, Option.filter]
    · simp [hup]

/-- Steps that do not look up the mark lead to the same spot without it, or fail the same way. -/
theorem follow_remove (hstart : ¬mark <:+ at') (h : ¬Passes t mark links at' steps) :
    (t.remove mark).follow true links at' steps = t.follow true links at' steps := by
  -- A link asks for more steps, but for fewer links.
  induction links using Nat.strong_induction_on generalizing at' steps with
  | _ links ihlinks =>
    induction steps generalizing at' with
    | nil => rw [follow, follow]
    | cons step rest ih =>
      have hhere : (t.remove mark).isDirectory at' = t.isDirectory at' :=
        isDirectory_remove_of_not_suffix hstart
      by_cases hdir : t.isDirectory at' = true
      · rw [hdir] at hhere
        cases step with
        | root =>
          rw [follow, follow, hhere, hdir]
          exact ih hstart fun hrest => h (.stay (.inl rfl) hdir hrest)
        | current =>
          rw [follow, follow, hhere, hdir]
          exact ih hstart fun hrest => h (.stay (.inr rfl) hdir hrest)
        | parent =>
          rw [follow, follow, hhere, hdir]
          exact ih (not_suffix_tail hstart) fun hrest => h (.up hdir hrest)
        | name n =>
          rw [follow, follow, hhere, hdir]
          by_cases hlength : n.bytes.length ≤ maxNameLength
          · have hbelow := not_suffix_cons hstart fun hmark => h (.here hdir hlength hmark)
            rw [find?_remove_of_not_suffix hbelow, if_neg (Nat.not_lt.2 hlength),
              if_neg (Nat.not_lt.2 hlength)]
            cases hentry : t.find? (n :: at') with
            | none => rfl
            | some e =>
              cases e with
              | file =>
                exact ih hbelow fun hrest => h (.enter hdir hlength hentry (by simp) hrest)
              | directory =>
                exact ih hbelow fun hrest => h (.enter hdir hlength hentry (by simp) hrest)
              | link target =>
                cases links with
                | zero => rfl
                | succ links =>
                  by_cases htarget : target.bytes = []
                  · simp [htarget]
                  · have hrest : ¬Passes t mark links (startOf at' target) (target.steps ++ rest) :=
                      fun hrest => h (.link hdir hlength hentry htarget hrest)
                    simpa [htarget] using
                      ihlinks links (Nat.lt_succ_self links) (not_suffix_startOf hstart target) hrest
          · simp [Nat.lt_of_not_le hlength]
      · rw [Bool.not_eq_true] at hdir
        rw [hdir] at hhere
        cases step <;> simp [follow, hhere, hdir]

/-- Steps that lead to an entry without the mark do not look it up. -/
theorem Leads.not_passes {found : Location} (hne : mark ≠ [])
    (h : Leads (t.remove mark) true links at' steps (.present found)) :
    ¬Passes t mark links at' steps := by
  generalize hspot : Spot.present found = spot at h
  induction h with
  | done => exact not_passes_nil
  | stay hstep _ _ ih =>
    intro hpasses
    cases hpasses with
    | stay _ _ hrest => exact ih hspot hrest
    | here => simp at hstep
    | up => simp at hstep
    | enter => simp at hstep
    | link => simp at hstep
  | up _ _ ih =>
    intro hpasses
    cases hpasses with
    | stay hstep => simp at hstep
    | up _ hrest => exact ih hspot hrest
  | free => cases hspot
  | enter _ _ hentry hlink _ ih =>
    have hkept := extends_remove t mark _ _ hentry
    intro hpasses
    cases hpasses with
    | here _ _ hmark => exact not_suffix_of_find?_remove hne hentry (hmark ▸ List.suffix_refl _)
    | stay hstep => simp at hstep
    | enter _ _ _ _ hrest => exact ih hspot hrest
    | link _ _ hother => exact hlink _ (Option.some.inj (hkept.symm.trans hother))
  | lastLink _ _ _ hlast => cases hlast
  | link _ _ hlink _ _ _ ih =>
    have hkept := extends_remove t mark _ _ hlink
    intro hpasses
    cases hpasses with
    | here _ _ hmark => exact not_suffix_of_find?_remove hne hlink (hmark ▸ List.suffix_refl _)
    | stay hstep => simp at hstep
    | enter _ _ hentry hother => exact hother _ (Option.some.inj (hentry.symm.trans hkept))
    | link _ _ hother _ hrest =>
      cases hkept.symm.trans hother
      exact ih hspot hrest

/-! ### Paths without the mark -/

variable {cwd : Location} {p : Path}

theorem not_suffix_of_resolve_remove (hne : mark ≠ []) (h : (t.remove mark).resolve cwd p = .ok place) :
    ¬mark <:+ startOf cwd p := by
  obtain ⟨hcheck, hleads⟩ := resolve_eq_ok_iff.1 h
  apply not_suffix_of_isDirectory_remove hne
  exact hleads.isDirectory_start (steps_ne_nil_of_checkPath hcheck)

/-- A path that does not look up the mark resolves in the same way without it. -/
theorem resolve_remove (hstart : ¬mark <:+ startOf cwd p)
    (h : ¬Passes t mark maxLinks (startOf cwd p) p.steps) :
    (t.remove mark).resolve cwd p = t.resolve cwd p := by
  rw [resolve, resolve, resolveFrom, resolveFrom, follow_remove hstart h]

/-- Where a path leads that does not need the mark, there is what was there. -/
theorem isDirectory_remove_of_resolve (h : (t.remove mark).resolve cwd p = .ok place) :
    (t.remove mark).isDirectory place = t.isDirectory place := by
  obtain ⟨e, he, _⟩ := exists_entry_of_resolve h
  exact ((extends_remove t mark).keeps.isDirectory_eq he).symm

end AssetBake.FileTree
