import AssetBake.Config.File
import AssetBake.Proofs.Config.Locating
import AssetBake.Proofs.Config.Unknown
import Mathlib

/-!
# Warnings about unknown entries

Main statement: a file that loads gives one warning for each unknown entry, in order. A warning has the
name of its entry, unless the name has a dot, and for a name that can be written without quotation
marks, in a text that looks like what it is, its line is that on which the entry is written.
-/

namespace AssetBake.Config

open Text Toml

/-- What a warning tells of something unknown. -/
def Reports (file : Path) (text : List Char) (parts : List Part) : Unknown → Warning → Prop
  | .entry heading key, warning =>
    warning.file = file ∧ (warning.key = key.text ↔ '.' ∉ key.text) ∧
      (IsBareName key.text → (∀ part ∈ parts, IsPlain heading key.text part) →
        ∀ n ∈ warning.line, n = lineAt text key.span.first)
  | .moment _, warning => warning.file = file ∧ warning.key = momentEntry.toList

/-! ### Names with dots -/

variable {heading name : List Char}

/-- The part of a name behind its last dot. -/
def lastPart (name : List Char) : List Char :=
  (name.reverse.takeWhile (· ≠ '.')).reverse

theorem forall_ne_dot (h : '.' ∉ name) : ∀ c ∈ name, decide (c ≠ '.') = true := fun c hc => by
  simpa using fun heq : c = '.' => h (heq ▸ hc)

theorem dot_notMem_lastPart (name : List Char) : '.' ∉ lastPart name := fun h => by
  simpa using List.all_eq_true.1 List.all_takeWhile _ (List.mem_reverse.1 h)

theorem lastPart_eq_self (h : '.' ∉ name) : lastPart name = name := by
  have htake := List.takeWhile_eq_self_iff.2 (forall_ne_dot (mt List.mem_reverse.1 h))
  rw [lastPart, htake, List.reverse_reverse]

theorem splitDotted_append (h : '.' ∉ heading) (name : List Char) :
    splitDotted (heading ++ '.' :: name) = (some heading, lastPart name) := by
  rw [splitDotted, List.dropWhile_append_of_pos (forall_ne_dot h),
    List.takeWhile_append_of_pos (forall_ne_dot h),
    List.dropWhile_cons_of_neg (by simp), List.takeWhile_cons_of_neg (by simp), List.append_nil]
  rfl

theorem splitDotted_eq (h : '.' ∉ name) : splitDotted name = (none, name) := by
  rw [splitDotted, List.dropWhile_eq_nil_iff.2 (forall_ne_dot h)]

/-- What splitting takes for the key has no dot. -/
theorem dot_notMem_splitDotted (name : List Char) : '.' ∉ (splitDotted name).2 := by
  by_cases h : '.' ∈ name
  · obtain ⟨heading, rest, rfl, hheading⟩ := List.eq_append_cons_of_mem h
    rw [splitDotted_append hheading]
    exact dot_notMem_lastPart rest
  · rwa [splitDotted_eq h]

/-! ### Entries of a document -/

variable {document : Toml.Table} {key k : Key} {entries : List (Key × Item)}

theorem mem_of_entry_none (h : Unknown.entry none key ∈ unknowns entries) :
    ∃ item, (key, item) ∈ entries := by
  obtain ⟨⟨k, item⟩, hmem, hunknown⟩ := List.mem_flatMap.1 h
  split at hunknown
  · rw [unknownsIn.eq_def] at hunknown
    split at hunknown <;> simp at hunknown
  · obtain rfl : key = k := by simpa using hunknown
    exact ⟨item, hmem⟩

theorem mem_of_moment (h : Unknown.moment heading ∈ unknowns entries) :
    ∃ s ∈ sections, s.1.toList = heading := by
  obtain ⟨⟨k, item⟩, -, hunknown⟩ := List.mem_flatMap.1 h
  split at hunknown
  · next name keys hfind =>
    cases item with
    | moment span s =>
      obtain rfl : heading = k.text := by simpa [unknownsIn] using hunknown
      exact ⟨_, List.mem_of_find?_eq_some hfind, by simpa using List.find?_some hfind⟩
    | _ => simp [unknownsIn] at hunknown
  · simp at hunknown

/-- What is unknown in a section stands in a table under a known heading. -/
theorem mem_of_entry_some (h : Unknown.entry (some heading) key ∈ unknowns entries) :
    (∃ s ∈ sections, s.1.toList = heading) ∧ ∃ (k : Key) (sub : Toml.Table) (item : Item),
      (k, sub.item) ∈ entries ∧ k.text = heading ∧ (key, item) ∈ sub.entries := by
  obtain ⟨⟨k, item⟩, hmem, hunknown⟩ := List.mem_flatMap.1 h
  split at hunknown
  · next name keys hfind =>
    have hheading : ∃ s ∈ sections, s.1.toList = k.text :=
      ⟨_, List.mem_of_find?_eq_some hfind, by simpa using List.find?_some hfind⟩
    cases item with
    | table kind span inner =>
      obtain ⟨⟨key', item⟩, hinner, heq⟩ := List.mem_map.1 hunknown
      cases heq
      exact ⟨hheading, k, ⟨kind, span, inner⟩, item, hmem, rfl, List.mem_of_mem_filter hinner⟩
    | _ => simp [unknownsIn] at hunknown
  · simp at hunknown

/-- What a document holds where something is unknown is the unknown entry. -/
theorem key_eq_of_holds {heading : Option (List Char)}
    (h : Unknown.entry heading key ∈ unknowns document.entries)
    (hholds : document.Holds k heading.toList) (hname : key.text = k.text) : key = k := by
  cases heading with
  | none =>
    obtain ⟨item, hmem⟩ := mem_of_entry_none h
    cases hholds with
    | here hsole => exact congrArg Prod.fst (Table.eq_of_under hsole hmem hname)
  | some heading =>
    obtain ⟨-, k', sub, item, hmem, hheading, hinner⟩ := mem_of_entry_some h
    cases hholds with
    | inside hsole hkind hsub =>
      have hentry := Table.eq_of_under hsole hmem hheading
      obtain rfl := Table.item_injective (congrArg Prod.snd hentry)
      cases hsub with
      | here hsole => exact congrArg Prod.fst (Table.eq_of_under hsole hinner hname)

/-! ### Warnings -/

theorem isBareName_of_mem_sections : ∀ s ∈ sections, IsBareName s.1.toList := by
  have hall : sections.all (fun s => !s.1.toList.isEmpty && s.1.toList.all Reader.isBareKeyChar) = true := by
    decide
  intro s hs
  simpa [IsBareName] using List.all_eq_true.1 hall s hs

theorem dot_notMem_of_isBareName (h : IsBareName name) : '.' ∉ name := fun hmem => by
  have hdot := h.2 '.' hmem
  cases hdot

theorem isBareName_heading {heading : Option (List Char)}
    (h : Unknown.entry heading key ∈ unknowns entries) : ∀ name ∈ heading, IsBareName name := by
  rintro name rfl
  obtain ⟨⟨s, hs, rfl⟩, -⟩ := mem_of_entry_some h
  exact isBareName_of_mem_sections s hs

/-- The name of an entry, if it has no dot, is what splitting its dotted name gives. -/
theorem splitDotted_dotted {heading : Option (List Char)}
    (hheading : ∀ name ∈ heading, IsBareName name) (h : '.' ∉ key.text) :
    splitDotted (Unknown.entry heading key).dotted = (heading, key.text) := by
  cases heading with
  | none => exact splitDotted_eq h
  | some name =>
    have hdot := dot_notMem_of_isBareName (hheading name rfl)
    exact (splitDotted_append hdot key.text).trans (by rw [lastPart_eq_self h])

/-- Where the search finds a line for an unknown entry with a bare name, the entry is written on it. -/
theorem locate_eq_lineAt {text : List Char} {parts : List Part} {heading : Option (List Char)} {n : Nat}
    (hparse : parse? text = some document) (hparts : parts? text = some parts)
    (hmem : Unknown.entry heading key ∈ unknowns document.entries) (hkey : IsBareName key.text)
    (hplain : ∀ part ∈ parts, IsPlain heading key.text part)
    (h : locate text heading key.text = some n) : n = lineAt text key.span.first := by
  obtain ⟨parts', last, hparts', hadd, hclose⟩ := exists_parts hparse
  obtain rfl : parts = parts' := Option.some.inj (hparts.symm.trans hparts')
  obtain ⟨s, hs, hparted⟩ := parted_of_parts? hparts
  have hsought : none = heading → IsSought heading Draft.empty.place := by
    rintro rfl
    rfl
  obtain ⟨k, hname, hholds, hline⟩ := locateFrom_parted [] hparted hs (List.nil_append text).symm
    rfl hkey (isBareName_heading hmem) hplain rfl hadd hclose hsought h
  rw [hline, key_eq_of_holds hmem hholds hname.symm]

theorem reports_of_mem {file : Path} {text : List Char} {parts : List Part} {u : Unknown}
    (hparse : parse? text = some document) (hparts : parts? text = some parts)
    (hmem : u ∈ unknowns document.entries) :
    Reports file text parts u (Warning.of file text u.dotted) := by
  cases u with
  | entry heading key =>
    have hheading := isBareName_heading hmem
    refine ⟨rfl, ⟨fun h => ?_, fun h => ?_⟩, fun hkey hplain n hn => ?_⟩
    · exact h ▸ dot_notMem_splitDotted _
    · exact congrArg Prod.snd (splitDotted_dotted hheading h)
    · have hsplit := splitDotted_dotted hheading (dot_notMem_of_isBareName hkey)
      rw [Warning.of, hsplit] at hn
      exact locate_eq_lineAt hparse hparts hmem hkey hplain hn
  | moment heading =>
    obtain ⟨s, hs, rfl⟩ := mem_of_moment hmem
    have hdot := dot_notMem_of_isBareName (isBareName_of_mem_sections s hs)
    exact ⟨rfl, congrArg Prod.snd (splitDotted_append hdot _)⟩

/-- A file that loads gives one warning for each thing that is unknown in it, in order. -/
theorem warnings_are_exact {file : Path} {text : List Char} {config : Config}
    {warnings : List Warning} (h : ofText file text = .ok (config, warnings)) :
    ∃ document parts, parse? text = some document ∧ parts? text = some parts ∧
      List.Forall₂ (Reports file text parts) (unknowns document.entries) warnings := by
  rw [ofText] at h
  split at h
  · cases h
  · next document hparse =>
    obtain ⟨parts, -, hparts, -⟩ := exists_parts hparse
    split at h
    · cases h
    · next reading hreading =>
      cases h
      refine ⟨document, parts, hparse, hparts, ?_⟩
      rw [unknown_of_ofDocument hreading, List.map_map, List.forall₂_map_right_iff,
        List.forall₂_same]
      exact fun u hmem => reports_of_mem hparse hparts hmem

def misspelt : List Char := "[paths]\ninptu = 1\n".toList

theorem warnings_are_exact_misspelt :
    ofText defaultFile misspelt =
        .ok (.standard, [⟨"inptu".toList, defaultFile, some 2, some "input".toList⟩]) ∧
      (∃ document parts, parse? misspelt = some document ∧ parts? misspelt = some parts ∧
        List.Forall₂ (Reports defaultFile misspelt parts) (unknowns document.entries)
          [⟨"inptu".toList, defaultFile, some 2, some "input".toList⟩]) ∧
      ∃ parts, parts? misspelt = some parts ∧
        ∀ part ∈ parts, IsPlain (some "paths".toList) "inptu".toList part := by
  have hload : ofText defaultFile misspelt =
      .ok (.standard, [⟨"inptu".toList, defaultFile, some 2, some "input".toList⟩]) := by cbv
  refine ⟨hload, warnings_are_exact hload, ?_⟩
  have hparts : parts? misspelt = some [⟨.header ⟨[], ⟨"paths".toList, 1, 6⟩⟩ ⟨0, 7⟩, "[paths]\n".toList⟩,
      ⟨.value ⟨[], ⟨"inptu".toList, 8, 13⟩⟩ (.integer ⟨16, 17⟩ 1), "inptu = 1\n".toList⟩,
      ⟨.blank, []⟩] := by cbv
  exact ⟨_, hparts, by decide⟩

/-- A file with a dot in a quoted name, and with a comment behind a header, which the search for lines
takes for no header. -/
def misleading : List Char := "[paths]\n'a.b' = 1\n'c' = 2\n[keys] #\nc = 3\n".toList

set_option maxRecDepth 2000 in
theorem ofText_misleading : ofText defaultFile misleading =
    .ok (.standard, [⟨"b".toList, defaultFile, none, none⟩, ⟨"c".toList, defaultFile, some 5, none⟩,
      ⟨"c".toList, defaultFile, none, none⟩]) := by
  cbv

set_option maxRecDepth 2000 in
theorem unknowns_misleading : (parse? misleading).map (unknowns ·.entries) =
    some [.entry (some "paths".toList) ⟨"a.b".toList, 8, 13⟩,
      .entry (some "paths".toList) ⟨"c".toList, 18, 21⟩,
      .entry (some "keys".toList) ⟨"c".toList, 35, 36⟩] := by
  cbv

/-- Of a name with a dot only the end is reported, and the line that is reported can be that of an entry
of another section. -/
theorem exists_misleading_warnings :
    ∃ document dotted quoted other first second third,
      ofText defaultFile misleading = .ok (.standard, [first, second, third]) ∧
        parse? misleading = some document ∧
        unknowns document.entries = [.entry (some "paths".toList) dotted,
          .entry (some "paths".toList) quoted, .entry (some "keys".toList) other] ∧
        first.key ≠ dotted.text ∧
        ∃ n ∈ second.line, n ≠ lineAt misleading quoted.span.first := by
  obtain ⟨document, hparse, hentries⟩ := Option.map_eq_some_iff.1 unknowns_misleading
  have hkey : "b".toList ≠ "a.b".toList := by decide
  have hline : lineAt misleading 18 = 3 := by cbv
  refine ⟨document, _, _, _, _, _, _, ofText_misleading, hparse, hentries, hkey, 5, rfl, ?_⟩
  rw [hline]
  decide

end AssetBake.Config
