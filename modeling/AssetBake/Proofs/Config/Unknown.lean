import AssetBake.Config.Load
import AssetBake.Proofs.Config.Fields

/-!
# Unknown entries

The entries of a document that no setting is read from: those of the document itself that are no
section, and those of a section that are none of its keys. Main statement: reading a document reports
these entries, each once and in their order; beside them it reports only a date that stands where a
section should.
-/

namespace AssetBake.Config

open Toml

/-- Something in a document that no setting is read from. -/
inductive Unknown
  /-- An entry of the document, or of the section with this heading. -/
  | entry (heading : Option (List Char)) (key : Key)
  /-- The one entry that a date counts for in place of the section with this heading. -/
  | moment (heading : List Char)

/-- The name that it goes by, behind that of its section. -/
def Unknown.dotted : Unknown → List Char
  | .entry none key => key.text
  | .entry (some heading) key => heading ++ '.' :: key.text
  | .moment heading => heading ++ '.' :: momentEntry.toList

/-- What is unknown in an item that stands for a section with these keys. -/
def unknownsIn (heading : List Char) (keys : List String) : Item → List Unknown
  | .table _ _ entries =>
    (entries.filter fun e => keys.all fun k => k.toList != e.1.text).map fun e =>
      .entry (some heading) e.1
  | .moment .. => [.moment heading]
  | _ => []

def unknowns (entries : List (Key × Item)) : List Unknown :=
  entries.flatMap fun e =>
    match sections.find? fun s => s.1.toList == e.1.text with
    | some (_, keys) => unknownsIn e.1.text keys e.2
    | none => [.entry none e.1]

/-! ### What reading reports -/

variable {reading last : Reading} {fields : List Field} {heading : List Char}

/-- The known names are those of the sections and of the fields that are read. -/
theorem find?_sections (name : List Char) :
    (sections.find? fun s => s.1.toList == name) =
      (sectionFields.find? fun s => s.1.toList == name).map fun s => (s.1, s.2.2.map (·.name)) := by
  have hsections : sections = sectionFields.map fun s => (s.1, s.2.2.map (·.name)) := rfl
  rw [hsections, List.find?_map]
  rfl

theorem unknown_of_readEntries {entries : List (Key × Item)}
    (h : readEntries heading fields reading entries = .ok last) :
    last.unknown = reading.unknown ++
      ((entries.filter fun e => (fields.map (·.name)).all fun k => k.toList != e.1.text).map
        fun e => (Unknown.entry (some heading) e.1).dotted) := by
  induction entries generalizing reading with
  | nil =>
    cases h
    simp
  | cons e rest ih =>
    obtain ⟨key, item⟩ := e
    rw [readEntries] at h
    split at h
    · next field hfind =>
      obtain ⟨next, -, hrest⟩ := Except.bind_eq_ok_iff.1 h
      rw [ih hrest, List.filter_cons_of_neg]
      have hname : field.name.toList = key.text := by simpa using List.find?_some hfind
      rw [List.all_map, List.all_eq_true]
      exact fun hall => by simpa [hname] using hall field (List.mem_of_find?_eq_some hfind)
    · next hnone =>
      rw [ih h, List.filter_cons_of_pos, List.map_cons, List.append_assoc]
      · rfl
      · rw [List.all_map, List.all_eq_true]
        exact fun field hfield => by simpa using List.find?_eq_none.1 hnone field hfield

theorem unknown_of_readSection {described : String} {item : Item}
    (h : readSection heading described fields reading item = .ok last) :
    last.unknown = reading.unknown ++
      (unknownsIn heading (fields.map (·.name)) item).map Unknown.dotted := by
  rw [readSection.eq_def] at h
  split at h
  · rw [unknown_of_readEntries h, unknownsIn, List.map_map]
    rfl
  · cases h
    rfl
  · next htable hmoment =>
    have hnone : unknownsIn heading (fields.map (·.name)) item = [] := by
      cases item with
      | table kind span entries => exact absurd rfl (htable kind span entries)
      | moment span s => exact absurd rfl (hmoment span s)
      | _ => rfl
    rw [hnone, List.map_nil, List.append_nil]
    split at h
    · obtain ⟨config, -, heq⟩ := Except.bind_eq_ok_iff.1 h
      cases heq
      rfl
    · cases h

theorem unknown_of_readSections {entries : List (Key × Item)}
    (h : readSections reading entries = .ok last) :
    last.unknown = reading.unknown ++ (unknowns entries).map Unknown.dotted := by
  induction entries generalizing reading with
  | nil =>
    cases h
    exact (List.append_nil _).symm
  | cons e rest ih =>
    obtain ⟨key, item⟩ := e
    rw [readSections] at h
    rw [unknowns, List.flatMap_cons, List.map_append, ← List.append_assoc, find?_sections]
    split at h
    · next name described fields hfind =>
      obtain ⟨next, hnext, hrest⟩ := Except.bind_eq_ok_iff.1 h
      simp only [ih hrest, unknown_of_readSection (placedAt_eq_ok_iff.1 hnext), hfind,
        Option.map_some]
      rfl
    · next hnone =>
      simp only [ih h, hnone, Option.map_none]
      rfl

/-- Reading a document reports what is unknown in it, in order. -/
theorem unknown_of_ofDocument {document : Toml.Table} (h : ofDocument document = .ok reading) :
    reading.unknown = (unknowns document.entries).map Unknown.dotted := by
  rw [unknown_of_readSections h, List.nil_append]

end AssetBake.Config
