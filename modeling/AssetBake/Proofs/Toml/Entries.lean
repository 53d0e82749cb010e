import AssetBake.Toml.Document

/-!
# Entries that stay

What follows in a document may add to its tables and fill some of them again, but an entry that has
come to stand in a table under its own key stays there under that key. Main statements: changing a
table at the end of a path keeps what the table holds, and so does every line of a document.
-/

namespace AssetBake.Toml

/-- The item is no table that longer headers alone have made, the one kind that a header takes up
again. -/
def Item.Settled (item : Item) : Prop :=
  ∀ span entries, item ≠ .table .implied span entries

namespace Table

variable {t t' t'' : Table} {key k : Key} {item old new : Item} {name : List Char}
  {names : List (List Char)}

/-! ### Entries under a name -/

/-- The entries of a table under a name. -/
def under (t : Table) (name : List Char) : List (Key × Item) :=
  t.entries.filter fun e => e.1.text == name

theorem find?_eq (t : Table) (name : List Char) : t.find? name = (t.under name).head?.map (·.2) := by
  rw [find?, under, List.head?_filter]

theorem under_eq_nil (h : t.find? name = none) : t.under name = [] := by
  rw [find?_eq, Option.map_eq_none_iff, List.head?_eq_none_iff] at h
  exact h

theorem under_append (t : Table) (key : Key) (item : Item) (name : List Char) :
    (t.append key item).under name = t.under name ++ if key.text = name then [(key, item)] else [] := by
  simp only [under, append, List.filter_append, List.filter_cons, List.filter_nil, beq_iff_eq]

theorem under_remove_of_ne {other : List Char} (h : other ≠ name) :
    (t.remove other).under name = t.under name := by
  rw [under, under, remove, List.filter_filter]
  refine List.filter_congr fun e _ => ?_
  by_cases he : e.1.text = name
  · simp [he, h.symm]
  · simp [he]

theorem under_replace_eq_map (t : Table) (other : List Char) (item : Item) (name : List Char) :
    (t.replace other item).under name =
      (t.under name).map fun e => if e.1.text = other then (e.1, item) else e := by
  rw [under, under, replace, List.filter_map]
  congr 1
  refine List.filter_congr fun e _ => ?_
  rw [Function.comp_apply]
  split <;> rfl

theorem under_replace_of_ne {other : List Char} (h : other ≠ name) :
    (t.replace other item).under name = t.under name := by
  rw [under_replace_eq_map]
  refine (List.map_congr_left fun e he => if_neg fun heq => h ?_).trans (List.map_id _)
  exact heq.symm.trans (beq_iff_eq.1 (List.mem_filter.1 he).2)

theorem under_replace (t : Table) (name : List Char) (item : Item) :
    (t.replace name item).under name = (t.under name).map fun e => (e.1, item) := by
  rw [under_replace_eq_map]
  refine List.map_congr_left fun e he => if_pos ?_
  exact beq_iff_eq.1 (List.mem_filter.1 he).2

/-- The only entry under a name is every entry under it. -/
theorem eq_of_under {e e' : Key × Item} (h : t.under name = [e]) (hmem : e' ∈ t.entries)
    (hname : e'.1.text = name) : e' = e := by
  rw [← List.mem_singleton, ← h]
  exact List.mem_filter.2 ⟨hmem, beq_iff_eq.2 hname⟩

/-! ### What a table holds -/

theorem item_injective : Function.Injective Table.item := by
  rintro ⟨kind, span, entries⟩ ⟨kind', span', entries'⟩ h
  cases h
  rfl

theorem settled_item : t.item.Settled ↔ t.kind ≠ .implied := by
  refine ⟨fun h hkind => h t.span t.entries ?_, fun h span entries heq => h (Item.table.inj heq).1⟩
  rw [item, hkind]

/-- At the end of a path of names, the key's own entry is the one under its name. -/
inductive Holds (key : Key) : List (List Char) → Table → Prop
  | here {t : Table} {item : Item} (hsole : t.under key.text = [(key, item)])
      (hsettled : item.Settled) : Holds key [] t
  | inside {t sub : Table} {name : List Char} {names : List (List Char)} {k : Key}
      (hsole : t.under name = [(k, sub.item)]) (hkind : sub.kind ≠ .implied)
      (hsub : Holds key names sub) : Holds key (name :: names) t

/-- A table that holds all that another one holds. -/
structure Keeps (t t' : Table) : Prop where
  kind : t'.kind = t.kind
  holds {key : Key} {names : List (List Char)} : Holds key names t → Holds key names t'

theorem Keeps.refl (t : Table) : Keeps t t :=
  ⟨rfl, id⟩

theorem Keeps.trans (h : Keeps t t') (h' : Keeps t' t'') : Keeps t t'' :=
  ⟨h'.kind.trans h.kind, h'.holds ∘ h.holds⟩

/-- An entry that is the only one under its name is the one that is found there. -/
theorem find?_of_under {e : Key × Item} (h : t.under name = [e]) : t.find? name = some e.2 := by
  rw [find?_eq, h]
  rfl

theorem Keeps.of_under (hkind : t'.kind = t.kind)
    (h : ∀ name k item, t.under name = [(k, item)] → item.Settled → t'.under name = [(k, item)]) :
    Keeps t t' := by
  refine ⟨hkind, fun {key names} hholds => ?_⟩
  cases hholds with
  | here hsole hsettled => exact .here (h _ _ _ hsole hsettled) hsettled
  | @inside _ sub _ _ _ hsole hne hsub =>
    refine .inside (h _ _ _ hsole fun span entries heq => hne ?_) hne hsub
    exact (Item.table.inj heq).1

theorem keeps_append (h : t.find? key.text = none) : Keeps t (t.append key item) := by
  refine .of_under rfl fun name k old hsole _ => ?_
  have hne : key.text ≠ name := by
    rintro rfl
    rw [under_eq_nil h] at hsole
    cases hsole
  rw [under_append, hsole, if_neg hne, List.append_nil]

theorem keeps_remove {span : Option Span} {entries : List (Key × Item)}
    (h : t.find? name = some (.table .implied span entries)) : Keeps t (t.remove name) := by
  refine .of_under rfl fun other k old hsole hsettled => ?_
  have hne : name ≠ other := by
    rintro rfl
    rw [find?_of_under hsole] at h
    exact hsettled span entries (Option.some.inj h)
  rw [under_remove_of_ne hne, hsole]

/-- A table that holds at least what was in its place before. The elements of a sequence of tables are
not reached by a path of names, so any of them may take the place of any others. -/
inductive Extends : Item → Item → Prop
  | table {t t' : Table} (h : Keeps t t') : Extends t.item t'.item
  | tables (elements elements' : List Item) : Extends (.tables elements) (.tables elements')

theorem Extends.settled (h : Extends old new) (hold : old.Settled) : new.Settled := by
  cases h with
  | table h => exact settled_item.2 (h.kind ▸ settled_item.1 hold)
  | tables => exact nofun

theorem Extends.of_item (h : Extends t.item new) : ∃ t', new = t'.item ∧ Keeps t t' := by
  generalize hold : t.item = old at h
  cases h with
  | @table s t' h =>
    obtain rfl : t = s := item_injective hold
    exact ⟨t', rfl, h⟩
  | tables => cases hold

theorem keeps_replace (hfind : t.find? name = some old) (h : Extends old new) :
    Keeps t (t.replace name new) := by
  refine ⟨rfl, fun {key names} hholds => ?_⟩
  cases hholds with
  | @here _ item hsole hsettled =>
    by_cases hname : name = key.text
    · subst hname
      obtain rfl : item = old := Option.some.inj ((find?_of_under hsole).symm.trans hfind)
      exact .here (by rw [under_replace, hsole]; rfl) (h.settled hsettled)
    · exact .here (by rwa [under_replace_of_ne hname]) hsettled
  | @inside _ sub other _ k hsole hne hsub =>
    by_cases hname : name = other
    · subst hname
      obtain rfl : sub.item = old := Option.some.inj ((find?_of_under hsole).symm.trans hfind)
      obtain ⟨sub', rfl, hkeeps⟩ := h.of_item
      exact .inside (by rw [under_replace, hsole]; rfl) (hkeeps.kind ▸ hne) (hkeeps.holds hsub)
    · exact .inside (by rwa [under_replace_of_ne hname]) hne hsub

/-- Changing the table at the end of a path keeps what the whole table holds. -/
theorem keeps_alter {β : Type} {dotted : Bool} {change : Table → Option (Table × β)} {path : List Key}
    {b : β} (hchange : ∀ t t' b, change t = some (t', b) → Keeps t t')
    (h : alter dotted change path t = some (t', b)) : Keeps t t' := by
  induction path generalizing t t' b with
  | nil => exact hchange t t' b h
  | cons key path ih =>
    rw [alter] at h
    split at h
    · -- Nothing is under the name yet, so the table on the way is new.
      next hfind =>
      obtain ⟨⟨sub, c⟩, -, heq⟩ := Option.bind_eq_some_iff.1 h
      cases heq
      exact keeps_append hfind
    · -- The table on the way takes the change up and keeps what it holds.
      next kind span entries hfind =>
      split at h
      · cases h
      · obtain ⟨⟨sub, c⟩, hsub, heq⟩ := Option.bind_eq_some_iff.1 h
        cases heq
        exact keeps_replace hfind (.table (ih hsub))
    · next elements hfind =>
      split at h
      · obtain ⟨⟨sub, c⟩, -, heq⟩ := Option.bind_eq_some_iff.1 h
        cases heq
        exact keeps_replace hfind (.tables ..)
      · cases h
    · cases h

theorem keeps_define {path : List Key} (h : t.define path key item = some t') : Keeps t t' := by
  obtain ⟨⟨t'', _⟩, halter, heq⟩ := Option.bind_eq_some_iff.1 h
  cases heq
  refine keeps_alter (fun s s' b hinsert => ?_) halter
  split at hinsert
  · cases hinsert
  · next hfree =>
    cases hinsert
    exact keeps_append (Option.not_isSome_iff_eq_none.1 (not_or.1 hfree).2)

/-- What a name without dots has been given stays under it. -/
theorem holds_define (hitem : item.Settled) (h : t.define [] key item = some t') :
    Holds key [] t' := by
  obtain ⟨⟨t'', _⟩, halter, heq⟩ := Option.bind_eq_some_iff.1 h
  cases heq
  rw [alter] at halter
  split at halter
  · cases halter
  · next hfree =>
    cases halter
    have hnone := Option.not_isSome_iff_eq_none.1 (not_or.1 hfree).2
    exact .here (by rw [under_append, under_eq_nil hnone, if_pos rfl]; rfl) hitem

/-- Filling a table with pairs leaves it of its kind. -/
theorem kind_of_defines {pairs : List (DottedKey × Item)} {t t' : Table}
    (h : pairs.foldlM (fun (t : Table) pair => t.define pair.1.path pair.1.last pair.2) t = some t') :
    t'.kind = t.kind := by
  induction pairs generalizing t with
  | nil =>
    cases h
    rfl
  | cons pair pairs ih =>
    obtain ⟨next, hdefine, hrest⟩ := Option.bind_eq_some_iff.1 h
    exact (ih hrest).trans (keeps_define hdefine).kind

end Table

/-- A table between braces is settled. -/
theorem settled_inlineTable? {span : Span} {pairs : List (DottedKey × Item)} {item : Item}
    (h : inlineTable? span pairs = some item) : item.Settled := by
  obtain ⟨t, hdefines, heq⟩ := Option.bind_eq_some_iff.1 h
  cases heq
  rw [Table.settled_item, Table.kind_of_defines hdefines]
  exact nofun

/-! ### Drafts -/

namespace Draft

open Toml.Table

variable {draft next : Draft} {t : Table} {name : DottedKey} {key k : Key} {names : List (List Char)}
  {span : Span} {value : Item}

/-- The document that a draft becomes has the key's own entry at the end of a path of names. -/
inductive Holds (key : Key) : List (List Char) → Draft → Prop
  | document {draft : Draft} {names : List (List Char)} (hplace : draft.place = .document)
      (h : draft.current.Holds key names) : Holds key names draft
  | root {draft : Draft} {names : List (List Char)} (hplace : draft.place ≠ .document)
      (h : draft.root.Holds key names) : Holds key names draft
  /-- The table that is being filled is the entry. -/
  | begun {draft : Draft} (hplace : draft.place = .table ⟨[], key⟩) : Holds key [] draft
  /-- The entry is in the table that is being filled. -/
  | filled {draft : Draft} {names : List (List Char)} {k : Key}
      (hplace : draft.place = .table ⟨[], k⟩) (h : draft.current.Holds key names) :
      Holds key (k.text :: names) draft

theorem keeps_close (hplace : draft.place ≠ .document) (h : draft.close = some t) :
    Keeps draft.root t := by
  rw [close] at h
  split at h
  · next hdocument => exact absurd hdocument hplace
  · obtain ⟨⟨root, _⟩, halter, heq⟩ := Option.bind_eq_some_iff.1 h
    cases heq
    refine keeps_alter (fun s s' b hput => ?_) halter
    split at hput
    · cases hput
    · next hfree =>
      cases hput
      exact keeps_append (Option.not_isSome_iff_eq_none.1 hfree)
  · obtain ⟨⟨root, _⟩, halter, heq⟩ := Option.bind_eq_some_iff.1 h
    cases heq
    refine keeps_alter (fun s s' b hput => ?_) halter
    split at hput
    · next hfind =>
      cases hput
      exact keeps_append hfind
    · next hfind =>
      cases hput
      exact keeps_replace hfind (.tables ..)
    · cases hput

/-- A table with a name without dots is put at the end of the document. -/
theorem close_table (hplace : draft.place = .table ⟨[], k⟩) (h : draft.close = some t) :
    t.under k.text = [(k, draft.current.item)] := by
  rw [close, hplace] at h
  obtain ⟨⟨root, _⟩, halter, heq⟩ := Option.bind_eq_some_iff.1 h
  cases heq
  rw [alter] at halter
  split at halter
  · cases halter
  · next hfree =>
    cases halter
    rw [under_append, under_eq_nil (Option.not_isSome_iff_eq_none.1 hfree), if_pos rfl]
    rfl

theorem Holds.close (hd : draft.Holds key names) (hkind : draft.current.kind = .headed)
    (h : draft.close = some t) : t.Holds key names := by
  have hheaded : draft.current.kind ≠ .implied := by simp [hkind]
  cases hd with
  | document hplace hholds =>
    rw [Draft.close, hplace] at h
    cases h
    exact hholds
  | root hplace hholds => exact (keeps_close hplace h).holds hholds
  | begun hplace => exact .here (close_table hplace h) (settled_item.2 hheaded)
  | filled hplace hholds => exact .inside (close_table hplace h) hheaded hholds

/-- Where a header leads: all that the document has so far is kept, and a new table is begun. -/
theorem header_eq_some (h : draft.header name span = some next) :
    ∃ t, draft.close = some t ∧ Keeps t next.root ∧ next.place = .table name ∧
      next.current.kind = .headed := by
  obtain ⟨t, hclose, h⟩ := Option.bind_eq_some_iff.1 h
  obtain ⟨⟨root, entries⟩, halter, heq⟩ := Option.bind_eq_some_iff.1 h
  cases heq
  refine ⟨t, hclose, keeps_alter (fun s s' b htake => ?_) halter, rfl, rfl⟩
  split at htake
  · cases htake
    exact .refl s
  · next hfind =>
    cases htake
    exact keeps_remove hfind
  · cases htake

theorem elementHeader_eq_some (h : draft.elementHeader name span = some next) :
    ∃ t, draft.close = some t ∧ Keeps t next.root ∧ next.place = .element name ∧
      next.current.kind = .headed := by
  obtain ⟨t, hclose, h⟩ := Option.bind_eq_some_iff.1 h
  obtain ⟨⟨root, _⟩, halter, heq⟩ := Option.bind_eq_some_iff.1 h
  cases heq
  refine ⟨t, hclose, keeps_alter (fun s s' b hreserve => ?_) halter, rfl, rfl⟩
  split at hreserve
  · next hfind =>
    cases hreserve
    exact keeps_append hfind
  · cases hreserve
    exact .refl s
  · cases hreserve

theorem assign_eq_some (h : draft.assign name value = some next) :
    next.root = draft.root ∧ next.place = draft.place ∧ Keeps draft.current next.current := by
  obtain ⟨current, hdefine, heq⟩ := Option.bind_eq_some_iff.1 h
  cases heq
  have hspan (span : Option Span) : Keeps draft.current { draft.current with span } :=
    .of_under rfl fun _ _ _ hsole _ => hsole
  exact ⟨rfl, rfl, (hspan _).trans (keeps_define hdefine)⟩

theorem holds_assign (hvalue : value.Settled) (h : draft.assign ⟨[], key⟩ value = some next) :
    next.current.Holds key [] := by
  obtain ⟨current, hdefine, heq⟩ := Option.bind_eq_some_iff.1 h
  cases heq
  exact holds_define hvalue hdefine

theorem Holds.assign (hd : draft.Holds key names) (h : draft.assign name value = some next) :
    next.Holds key names := by
  obtain ⟨hroot, hplace, hkeeps⟩ := assign_eq_some h
  cases hd with
  | document hdocument hholds => exact .document (hplace.trans hdocument) (hkeeps.holds hholds)
  | root hdocument hholds => exact .root (hplace ▸ hdocument) (hroot ▸ hholds)
  | begun htable => exact .begun (hplace.trans htable)
  | filled htable hholds => exact .filled (hplace.trans htable) (hkeeps.holds hholds)

end Draft

end AssetBake.Toml
