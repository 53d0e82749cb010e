import AssetBake.Report.Event
import AssetBake.Proofs.Text.Pieces
import Mathlib.Tactic.SplitIfs

/-!
# Lines of events

An event is one line: its only control character is the newline at its end. Texts stand in a JSON
string with every control character escaped, and no other part of an object holds one. The first field
of the line says what the event is.
-/

namespace AssetBake.Report

/-- A text that is one line, with the line break that ends it. -/
def IsLine (text : String) : Prop :=
  ∃ content : List Char, '\n' ∉ content ∧ text = String.ofList (content ++ ['\n'])

/-! ### Values -/

/-- A fixed text without control characters. -/
theorem le_toNat_of_mem {word : List Char} (hall : word.all fun d => 0x20 ≤ d.toNat) {d : Char}
    (h : d ∈ word) : 0x20 ≤ d.toNat :=
  of_decide_eq_true (List.all_eq_true.1 hall d h)

/-- No control character is left in a string. -/
theorem le_toNat_of_mem_escapeJsonChar {c d : Char} (h : d ∈ escapeJsonChar c) :
    0x20 ≤ d.toNat := by
  rw [escapeJsonChar] at h
  split_ifs at h with _ _ _ _ _ _ _ hcontrol
  rotate_left 7
  · have hpairs : (List.range 0x20).all fun n => (hexPair n).all fun d => 0x20 ≤ d.toNat := by
      decide
    rcases List.mem_append.1 h with h | h
    · exact le_toNat_of_mem (by decide) h
    · exact le_toNat_of_mem (List.all_eq_true.1 hpairs _ (List.mem_range.2 hcontrol)) h
  · rw [List.mem_singleton.1 h]
    exact Nat.le_of_not_lt hcontrol
  -- The short escapes are fixed texts.
  all_goals exact le_toNat_of_mem (by decide) h

theorem le_toNat_of_mem_jsonString {s : List Char} {d : Char} (h : d ∈ jsonString s) :
    0x20 ≤ d.toNat := by
  simp only [jsonString, List.cons_append, List.mem_cons, List.mem_append, List.mem_flatMap,
    List.not_mem_nil, or_false] at h
  rcases h with rfl | ⟨c, _, hd⟩ | rfl
  · decide
  · exact le_toNat_of_mem_escapeJsonChar hd
  · decide

theorem le_toNat_of_mem_render {value : JsonValue} {d : Char} (h : d ∈ value.render) :
    0x20 ≤ d.toNat := by
  cases value with
  | text s => exact le_toNat_of_mem_jsonString h
  | number n =>
    have hdigit := Nat.isDigit_of_mem_toDigits (by decide) (by decide) h
    simp only [Char.isDigit, Bool.and_eq_true, decide_eq_true_eq, ge_iff_le,
      UInt32.le_iff_toNat_le] at hdigit
    change 48 ≤ d.toNat ∧ d.toNat ≤ 57 at hdigit
    omega
  | truth b =>
    cases b with
    | true => exact le_toNat_of_mem (by decide) h
    | false => exact le_toNat_of_mem (by decide) h

/-! ### Objects -/

theorem le_toNat_of_mem_renderFields {fields : List (String × JsonValue)} {d : Char}
    (h : d ∈ renderFields fields) : 0x20 ≤ d.toNat := by
  induction fields with
  | nil => simp [renderFields] at h
  | cons field rest ih =>
    cases rest with
    | nil =>
      simp only [renderFields, List.mem_append, List.mem_cons] at h
      rcases h with h | rfl | h
      · exact le_toNat_of_mem_jsonString h
      · decide
      · exact le_toNat_of_mem_render h
    | cons next rest =>
      simp only [renderFields, List.mem_append, List.mem_cons] at h ih
      rcases h with (h | rfl | h) | rfl | h
      · exact le_toNat_of_mem_jsonString h
      · decide
      · exact le_toNat_of_mem_render h
      · decide
      · exact ih h

/-- An object without the newline behind it. -/
def objectText (fields : List (String × JsonValue)) : List Char :=
  '\x7b' :: renderFields fields ++ ['\x7d']

theorem jsonLine_eq (fields : List (String × JsonValue)) :
    jsonLine fields = objectText fields ++ ['\n'] := by
  simp [jsonLine, objectText]

/-- An object is written without a control character, but for the newline at its end. -/
theorem le_toNat_of_mem_objectText {fields : List (String × JsonValue)} {d : Char}
    (h : d ∈ objectText fields) : 0x20 ≤ d.toNat := by
  rw [objectText, List.cons_append, List.mem_cons, List.mem_append, List.mem_singleton] at h
  rcases h with rfl | h | rfl
  · decide
  · exact le_toNat_of_mem_renderFields h
  · decide

namespace Event

/-- An event is written as one line. -/
theorem isLine_line (event : Event) : IsLine event.line := by
  refine ⟨objectText event.fields, fun hmem => ?_, ?_⟩
  · exact absurd (le_toNat_of_mem_objectText hmem) (by decide)
  · rw [line, jsonLine_eq]

/-! ### What an event says it is -/

/-- What an event says it is. -/
def Is (event : Event) (word : String) : Prop :=
  event.fields.lookup "event" = some (text word)

/-- Whether an event tells how a run went. -/
def IsTerminal (event : Event) : Prop :=
  event.Is "complete" ∨ event.Is "error"

def IsSuccess (event : Event) : Prop :=
  event.Is "complete" ∧ event.fields.lookup "success" = some (.truth true)

theorem is_start (command : String) (input output : Path) :
    (start command input output).Is "start" := rfl

theorem is_warning (w : Config.Warning) : (warning w).Is "warning" := rfl

theorem is_asset (planned : Planned) : (asset planned).Is "asset" := rfl

theorem is_error (failure : Failure) : (failed failure).Is "error" := rfl

/-- An event says one thing only. -/
theorem Is.eq {event : Event} {word other : String} (h : event.Is word) (hother : event.Is other) :
    word = other := by
  have hsame := h.symm.trans hother
  rw [Option.some.injEq, text, text, JsonValue.text.injEq] at hsame
  exact String.toList_injective hsame

theorem not_isTerminal {event : Event} {word : String} (h : event.Is word)
    (hcomplete : word ≠ "complete") (herror : word ≠ "error") : ¬event.IsTerminal := by
  rintro (hterminal | hterminal)
  · exact hcomplete (h.eq hterminal)
  · exact herror (h.eq hterminal)

theorem not_is_complete (failure : Failure) : ¬(failed failure).Is "complete" := by
  intro hcomplete
  exact absurd ((is_error failure).eq hcomplete) (by decide)

end Event

end AssetBake.Report
