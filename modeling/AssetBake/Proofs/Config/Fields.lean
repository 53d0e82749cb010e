import AssetBake.Config.Decode
import AssetBake.Proofs.Fallible

/-!
# The fields of a configuration file

Which entry of a document decides about a setting. Every setting belongs to one field of one section:
reading that field puts its value there, and reading any other leaves the setting as it is. So a
document that can be read gives each setting the value of its own entry, or leaves it as it was.
-/

namespace AssetBake.Config

open Toml

/-! ### Where a document has its fields -/

/-- Where a setting is written: under a name in a section, or at an index if the section is a list. -/
structure Spot where
  heading : String
  index : Nat
  name : String

/-- The last entry under a name. A document has no name twice, so that it is the only one. -/
def entryNamed? (name : String) : List (Key × Item) → Option Item
  | [] => none
  | (key, item) :: rest =>
    (entryNamed? name rest).or (if key.text = name.toList then some item else none)

def Spot.inSection? (spot : Spot) (item : Item) : Option Item :=
  match item with
  | .table _ _ entries => entryNamed? spot.name entries
  | _ => (sequence? item).bind (·[spot.index]?)

/-- What the entries of a document hold at a spot. -/
def Spot.find? (spot : Spot) : List (Key × Item) → Option Item
  | [] => none
  | (key, item) :: rest =>
    (spot.find? rest).or (if key.text = spot.heading.toList then spot.inSection? item else none)

/-- The value that is written at a place, or the one from below if nothing is written there. -/
def Chosen {α : Type} (decode : Item → Decoded α) (written : Option Item) (below value : α) : Prop :=
  match written with
  | none => value = below
  | some item => decode item = .ok value

theorem Chosen.trans {α : Type} {decode : Item → Decoded α} {first second : Option Item}
    {a b c : α} (hfirst : Chosen decode first a b) (hsecond : Chosen decode second b c) :
    Chosen decode (second.or first) a c := by
  cases second with
  | none =>
    cases hsecond
    exact hfirst
  | some item => exact hsecond

/-! ### What one field does to a setting -/

variable {α β : Type}

namespace Field

/-- Reading the field puts its value into a setting. -/
def Sets (field : Field) (decode : Item → Decoded α) (get : Config → α) : Prop :=
  ∀ item config result, field.decode item config = .ok result → decode item = .ok (get result)

/-- Reading the field leaves a setting as it is. -/
def Keeps (field : Field) (get : Config → α) : Prop :=
  ∀ item config result, field.decode item config = .ok result → get result = get config

@[simp] theorem name_of {name : String} {decode : Item → Decoded β} {put : β → Config → Config} :
    (Field.of name decode put).name = name := rfl

end Field

/-! ### What the fields of a section do to a setting -/

/-- The field at an index, and no other, has the name and puts its value into the setting. -/
def OneSets (name : String) (decode : Item → Decoded α) (get : Config → α) :
    Nat → List Field → Prop
  | _, [] => False
  | 0, field :: rest =>
    field.name = name ∧ field.Sets decode get ∧ ∀ other ∈ rest, other.name ≠ name ∧ other.Keeps get
  | n + 1, field :: rest => (field.name ≠ name ∧ field.Keeps get) ∧ OneSets name decode get n rest

variable {name : String} {decode : Item → Decoded α} {get : Config → α} {fields : List Field}
  {config result : Config} {reading last : Reading} {spot : Spot}

theorem not_oneSets_nil {n : Nat} : ¬OneSets name decode get n [] := by
  rw [OneSets]
  exact id

theorem OneSets.sets {n : Nat} (h : OneSets name decode get n fields) {field : Field}
    (hfield : field ∈ fields) (hname : field.name = name) : field.Sets decode get := by
  induction fields generalizing n with
  | nil => simp at hfield
  | cons first rest ih =>
    cases n with
    | zero =>
      rcases List.mem_cons.1 hfield with rfl | hrest
      · exact h.2.1
      · exact absurd hname (h.2.2 field hrest).1
    | succ n =>
      rcases List.mem_cons.1 hfield with rfl | hrest
      · exact absurd hname h.1.1
      · exact ih h.2 hrest

theorem OneSets.keeps {n : Nat} (h : OneSets name decode get n fields) {field : Field}
    (hfield : field ∈ fields) (hname : field.name ≠ name) : field.Keeps get := by
  induction fields generalizing n with
  | nil => simp at hfield
  | cons first rest ih =>
    cases n with
    | zero =>
      rcases List.mem_cons.1 hfield with rfl | hrest
      · exact absurd h.1 hname
      · exact (h.2.2 field hrest).2
    | succ n =>
      rcases List.mem_cons.1 hfield with rfl | hrest
      · exact h.1.2
      · exact ih h.2 hrest

theorem OneSets.exists_field {n : Nat} (h : OneSets name decode get n fields) :
    ∃ field ∈ fields, field.name = name := by
  induction fields generalizing n with
  | nil => exact absurd h not_oneSets_nil
  | cons first rest ih =>
    cases n with
    | zero => exact ⟨first, List.mem_cons_self, h.1⟩
    | succ n =>
      obtain ⟨field, hfield, hname⟩ := ih h.2
      exact ⟨field, List.mem_cons_of_mem _ hfield, hname⟩

theorem placedAt_eq_ok_iff {span : Option Span} {decoded : Decoded β} {b : β} :
    placedAt span decoded = .ok b ↔ decoded = .ok b := by
  cases decoded <;> simp [placedAt, Except.mapError]

theorem readElements_of_keeps (hkeeps : ∀ field ∈ fields, field.Keeps get) {items : List Item}
    (h : readElements fields config items = .ok result) : get result = get config := by
  induction items generalizing fields config with
  | nil =>
    rw [readElements] at h
    cases h
    rfl
  | cons item rest ih =>
    cases fields with
    | nil =>
      rw [readElements] at h
      cases h
      rfl
    | cons field fields =>
      obtain ⟨hfield, hfields⟩ := List.forall_mem_cons.1 hkeeps
      obtain ⟨next, hnext, hrest⟩ := Except.bind_eq_ok_iff.1 h
      rw [ih hfields hrest]
      exact hfield item config next (placedAt_eq_ok_iff.1 hnext)

/-- A list of fields gives the setting the element at its index. -/
theorem readElements_of_oneSets {n : Nat} (hone : OneSets name decode get n fields)
    {items : List Item} (h : readElements fields config items = .ok result) :
    Chosen decode items[n]? (get config) (get result) := by
  induction items generalizing fields config n with
  | nil =>
    rw [readElements] at h
    cases h
    rfl
  | cons item rest ih =>
    cases fields with
    | nil => exact absurd hone not_oneSets_nil
    | cons field fields =>
      obtain ⟨next, hnext, hrest⟩ := Except.bind_eq_ok_iff.1 h
      have hfield := placedAt_eq_ok_iff.1 hnext
      cases n with
      | zero =>
        have hkeeps := readElements_of_keeps (fun other hother => (hone.2.2 other hother).2) hrest
        rw [List.getElem?_cons_zero, hkeeps]
        exact hone.2.1 item config next hfield
      | succ n =>
        rw [List.getElem?_cons_succ, ← hone.1.2 item config next hfield]
        exact ih hone.2 hrest

theorem readEntries_of_keeps (hkeeps : ∀ field ∈ fields, field.Keeps get) {heading : List Char}
    {entries : List (Key × Item)} (h : readEntries heading fields reading entries = .ok last) :
    get last.config = get reading.config := by
  induction entries generalizing reading with
  | nil =>
    cases h
    rfl
  | cons entry rest ih =>
    obtain ⟨key, item⟩ := entry
    rw [readEntries] at h
    split at h
    · next field hfind =>
      obtain ⟨next, hnext, hrest⟩ := Except.bind_eq_ok_iff.1 h
      rw [ih hrest]
      exact hkeeps field (List.mem_of_find?_eq_some hfind) item _ next (placedAt_eq_ok_iff.1 hnext)
    · have hrest := ih h
      exact hrest

/-- A table of fields gives the setting the entry under its name. -/
theorem readEntries_of_oneSets {n : Nat} (hone : OneSets name decode get n fields)
    {heading : List Char} {entries : List (Key × Item)}
    (h : readEntries heading fields reading entries = .ok last) :
    Chosen decode (entryNamed? name entries) (get reading.config) (get last.config) := by
  induction entries generalizing reading with
  | nil =>
    cases h
    rfl
  | cons entry rest ih =>
    obtain ⟨key, item⟩ := entry
    rw [readEntries] at h
    rw [entryNamed?]
    split at h
    · next field hfind =>
      obtain ⟨next, hnext, hrest⟩ := Except.bind_eq_ok_iff.1 h
      have hdecode := placedAt_eq_ok_iff.1 hnext
      have hfield := List.mem_of_find?_eq_some hfind
      have hkey : field.name.toList = key.text := by simpa using List.find?_some hfind
      apply Chosen.trans _ (ih hrest)
      by_cases hname : field.name = name
      · rw [← hkey, hname, if_pos rfl]
        exact hone.sets hfield hname item _ next hdecode
      · rw [← hkey, if_neg (fun heq => hname (String.toList_injective heq))]
        exact hone.keeps hfield hname item _ next hdecode
    · next hnone =>
      have hkey : key.text ≠ name.toList := by
        obtain ⟨field, hfield, rfl⟩ := hone.exists_field
        intro heq
        simpa [heq] using List.find?_eq_none.1 hnone field hfield
      rw [if_neg hkey, Option.or_none]
      have hrest := ih h
      exact hrest

/-! ### What a document does to a setting -/

/-- One field of one section decides about the setting. -/
structure Governs (spot : Spot) (decode : Item → Decoded α) (get : Config → α) : Prop where
  listed : ∃ s ∈ sectionFields, s.1 = spot.heading
  own : ∀ s ∈ sectionFields, s.1 = spot.heading → OneSets spot.name decode get spot.index s.2.2
  other : ∀ s ∈ sectionFields, s.1 ≠ spot.heading → ∀ field ∈ s.2.2, field.Keeps get

theorem readSection_of_keeps (hkeeps : ∀ field ∈ fields, field.Keeps get) {heading : List Char}
    {described : String} {item : Item}
    (h : readSection heading described fields reading item = .ok last) :
    get last.config = get reading.config := by
  unfold readSection at h
  split at h
  · exact readEntries_of_keeps hkeeps h
  · cases h
    rfl
  · split at h
    · obtain ⟨next, hnext, hlast⟩ := Except.bind_eq_ok_iff.1 h
      cases hlast
      exact readElements_of_keeps hkeeps hnext
    · simp [wrongType] at h

theorem readSection_of_oneSets (hone : OneSets spot.name decode get spot.index fields)
    {heading : List Char} {described : String} {item : Item}
    (h : readSection heading described fields reading item = .ok last) :
    Chosen decode (spot.inSection? item) (get reading.config) (get last.config) := by
  unfold readSection at h
  split at h
  · exact readEntries_of_oneSets hone h
  · cases h
    rfl
  · next htable _ =>
    split at h
    · next items hitems =>
      obtain ⟨next, hnext, hlast⟩ := Except.bind_eq_ok_iff.1 h
      cases hlast
      have hspot : spot.inSection? item = items[spot.index]? := by
        rw [Spot.inSection?, hitems, Option.bind_some]
        exact htable
      rw [hspot]
      exact readElements_of_oneSets hone hnext
    · simp [wrongType] at h

/-- Reading a document gives the setting the value at its spot, or leaves it as it was. -/
theorem Governs.chosen (hgoverns : Governs spot decode get) {entries : List (Key × Item)}
    (h : readSections reading entries = .ok last) :
    Chosen decode (spot.find? entries) (get reading.config) (get last.config) := by
  induction entries generalizing reading with
  | nil =>
    cases h
    rfl
  | cons entry rest ih =>
    obtain ⟨key, item⟩ := entry
    rw [readSections] at h
    rw [Spot.find?]
    split at h
    · next heading described fields hfind =>
      obtain ⟨next, hnext, hrest⟩ := Except.bind_eq_ok_iff.1 h
      have hsection := placedAt_eq_ok_iff.1 hnext
      have hmem := List.mem_of_find?_eq_some hfind
      have hkey : heading.toList = key.text := by simpa using List.find?_some hfind
      apply Chosen.trans _ (ih hrest)
      by_cases hheading : heading = spot.heading
      · rw [← hkey, hheading, if_pos rfl]
        exact readSection_of_oneSets (hgoverns.own _ hmem hheading) hsection
      · rw [← hkey, if_neg (fun heq => hheading (String.toList_injective heq))]
        exact readSection_of_keeps (hgoverns.other _ hmem hheading) hsection
    · next hnone =>
      have hkey : key.text ≠ spot.heading.toList := by
        obtain ⟨s, hs, hheading⟩ := hgoverns.listed
        intro heq
        simpa [heq, hheading] using List.find?_eq_none.1 hnone s hs
      rw [if_neg hkey, Option.or_none]
      have hrest := ih h
      exact hrest

end AssetBake.Config
