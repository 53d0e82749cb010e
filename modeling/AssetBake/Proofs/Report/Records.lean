import AssetBake.Proofs.Report.Lines
import AssetBake.Proofs.Report.Reader

/-!
# Records of events

An event as the record that is written of it: texts, numbers and truth values, some of which may be
missing. The line of a record is one line without control characters, a reader of JSON gets back every
field from it, and so no two records share a line.
-/

namespace AssetBake.Report

/-- What is written of an event. -/
inductive Record
  | start (command version input output : List Char)
  | asset (key path : List Char)
  | warning (key file : List Char) (line : Option Nat) (suggestion : Option (List Char))
  | complete (command : List Char) (success : Bool) (assets : Nat) (contentBytes : Option Nat)
      (outcome status hash : Option (List Char))
  | error (kind message : List Char) (path : Option (List Char))

def Event.record : Event → Record
  | start command input output =>
    .start command.toList version.toList input.display.toList output.display.toList
  | asset planned => .asset planned.key planned.source.relative.componentText.toList
  | warning w => .warning w.key w.file.display.toList w.line w.suggestion
  | listed assets => .complete "list".toList true assets none none none none
  | generated report =>
    .complete "generate".toList true report.assets (some report.contentBytes)
      (some report.outcome.word.toList) none (some report.hash.toList)
  | checked report =>
    .complete "check".toList report.isUpToDate report.assets none none
      (some report.freshness.word.toList) (some report.artifact.hash.toList)
  | failed failure =>
    .error failure.kind.toList failure.message.toList
      (failure.path?.map fun path => path.display.toList)
  | foreign causes => .error "error".toList (causes.headD "").toList none

namespace Record

open Event

/-- The word that says what kind of record it is. -/
def word : Record → String
  | start .. => "start"
  | asset .. => "asset"
  | warning .. => "warning"
  | complete .. => "complete"
  | error .. => "error"

/-- The fields of a record; one without a value is left out. -/
def fields (r : Record) : List (String × JsonValue) :=
  ("event", Event.text r.word) ::
    match r with
    | start command version input output =>
      [("command", .text command), ("version", .text version), ("input", .text input),
        ("output", .text output)]
    | asset key path => [("key", .text key), ("path", .text path)]
    | warning key file line suggestion =>
      [("key", .text key), ("file", .text file)] ++ field? "line" (line.map .number) ++
        field? "suggestion" (suggestion.map .text)
    | complete command success assets contentBytes outcome status hash =>
      [("command", .text command), ("success", .truth success), ("assets", .number assets)] ++
        field? "content_bytes" (contentBytes.map .number) ++
        field? "outcome" (outcome.map .text) ++ field? "status" (status.map .text) ++
        field? "hash" (hash.map .text)
    | error kind message path =>
      [("kind", .text kind), ("message", .text message)] ++ field? "path" (path.map .text)

def line (r : Record) : String :=
  String.ofList (jsonLine r.fields)

/-- The fields of an event are those of its record. -/
theorem fields_record (event : Event) : event.record.fields = event.fields := by
  cases event with
  | failed failure =>
    simp only [Event.record, fields, Event.fields, Option.map_map]
    rfl
  | _ => rfl

/-! ### The fields by their names -/

variable {name other : String} {value : Option JsonValue} {rest : List (String × JsonValue)}

theorem lookup_field?_append_self :
    (field? name value ++ rest).lookup name = value.or (rest.lookup name) := by
  cases value <;> simp [field?]

theorem lookup_field?_append_of_ne (h : other ≠ name) :
    (field? name value ++ rest).lookup other = rest.lookup other := by
  cases value <;> simp [field?, List.lookup_cons, beq_false_of_ne h]

theorem lookup_field?_self : (field? name value).lookup name = value := by
  cases value <;> simp [field?]

theorem lookup_field?_of_ne (h : other ≠ name) : (field? name value).lookup other = none := by
  cases value <;> simp [field?, List.lookup_cons, beq_false_of_ne h]

theorem map_fst_field?_sublist (name : String) (value : Option JsonValue) :
    ((field? name value).map Prod.fst).Sublist [name] := by
  cases value <;> simp [field?]

theorem map_text_injective {a b : Option (List Char)} (h : a.map JsonValue.text = b.map .text) :
    a = b :=
  Option.map_injective (fun _ _ => JsonValue.text.inj) h

theorem map_number_injective {a b : Option Nat} (h : a.map JsonValue.number = b.map .number) :
    a = b :=
  Option.map_injective (fun _ _ => JsonValue.number.inj) h

/-- No name stands twice in a record. -/
theorem nodup_fields (r : Record) : (r.fields.map Prod.fst).Nodup := by
  cases r with
  | start => simp [fields]
  | asset => simp [fields]
  | warning key file line suggestion =>
    have hall : ["event", "key", "file", "line", "suggestion"].Nodup := by decide
    refine hall.sublist ?_
    simp only [fields, List.map_cons, List.map_append, List.cons_append, List.nil_append]
    exact .cons_cons _ (.cons_cons _ (.cons_cons _
      ((map_fst_field?_sublist "line" _).append (map_fst_field?_sublist "suggestion" _))))
  | complete command success assets contentBytes outcome status hash =>
    have hall : ["event", "command", "success", "assets", "content_bytes", "outcome", "status",
      "hash"].Nodup := by decide
    refine hall.sublist ?_
    simp only [fields, List.map_cons, List.map_append, List.cons_append, List.nil_append]
    exact .cons_cons _ (.cons_cons _ (.cons_cons _ (.cons_cons _
      (((map_fst_field?_sublist "content_bytes" _).append
        (map_fst_field?_sublist "outcome" _)).append
          (map_fst_field?_sublist "status" _) |>.append (map_fst_field?_sublist "hash" _)))))
  | error kind message path =>
    have hall : ["event", "kind", "message", "path"].Nodup := by decide
    refine hall.sublist ?_
    simp only [fields, List.map_cons, List.cons_append, List.nil_append]
    exact .cons_cons _ (.cons_cons _ (.cons_cons _ (map_fst_field?_sublist "path" _)))

/-- A record is determined by its fields, those that are missing included. -/
theorem eq_of_fields_eq {r r' : Record} (h : r.fields = r'.fields) : r = r' := by
  have hword : r.word = r'.word := by
    have hevent := (List.cons.inj h).1
    rw [Prod.mk.injEq, Event.text, Event.text, JsonValue.text.injEq] at hevent
    exact String.toList_injective hevent.2
  have hrest := (List.cons.inj h).2
  cases r with
  | start command version input output =>
    cases r' with
    | start => simpa [fields] using hrest
    | _ => simp [word] at hword
  | asset key path =>
    cases r' with
    | asset => simpa [fields] using hrest
    | _ => simp [word] at hword
  | warning key file line suggestion =>
    cases r' with
    | warning key' file' line' suggestion' =>
      simp only [List.cons_append, List.nil_append, List.cons.injEq, Prod.mk.injEq,
        JsonValue.text.injEq, true_and] at hrest
      obtain ⟨rfl, rfl, hoptional⟩ := hrest
      have hline := congrArg (List.lookup "line") hoptional
      have hsuggestion := congrArg (List.lookup "suggestion") hoptional
      simp (disch := decide) only [lookup_field?_append_self, lookup_field?_append_of_ne,
        lookup_field?_self, lookup_field?_of_ne, Option.or_none] at hline hsuggestion
      rw [map_number_injective hline, map_text_injective hsuggestion]
    | _ => simp [word] at hword
  | complete command success assets contentBytes outcome status hash =>
    cases r' with
    | complete command' success' assets' contentBytes' outcome' status' hash' =>
      simp only [List.cons_append, List.nil_append, List.append_assoc, List.cons.injEq,
        Prod.mk.injEq, JsonValue.text.injEq, JsonValue.truth.injEq, JsonValue.number.injEq,
        true_and] at hrest
      obtain ⟨rfl, rfl, rfl, hoptional⟩ := hrest
      have hbytes := congrArg (List.lookup "content_bytes") hoptional
      have houtcome := congrArg (List.lookup "outcome") hoptional
      have hstatus := congrArg (List.lookup "status") hoptional
      have hhash := congrArg (List.lookup "hash") hoptional
      simp (disch := decide) only [lookup_field?_append_self, lookup_field?_append_of_ne,
        lookup_field?_self, lookup_field?_of_ne, Option.or_none] at hbytes houtcome hstatus hhash
      rw [map_number_injective hbytes, map_text_injective houtcome, map_text_injective hstatus,
        map_text_injective hhash]
    | _ => simp [word] at hword
  | error kind message path =>
    cases r' with
    | error kind' message' path' =>
      simp only [List.cons_append, List.nil_append, List.cons.injEq, Prod.mk.injEq,
        JsonValue.text.injEq, true_and] at hrest
      obtain ⟨rfl, rfl, hoptional⟩ := hrest
      have hpath := congrArg (List.lookup "path") hoptional
      rw [lookup_field?_self, lookup_field?_self] at hpath
      rw [map_text_injective hpath]
    | _ => simp [word] at hword

/-! ### Lines -/

theorem json_injective {a b : JsonValue} (h : a.json = b.json) : a = b := by
  cases a <;> cases b <;>
    simp only [JsonValue.json, Json.text.injEq, Json.number.injEq, Json.truth.injEq, Int.ofNat_inj,
      and_true, reduceCtorEq] at h <;> rw [h]

theorem member_injective {a b : String × JsonValue} (h : member a = member b) : a = b := by
  rw [member, member, Prod.mk.injEq] at h
  exact Prod.ext (String.toList_injective h.1) (json_injective h.2)

/-- A line is written of one record only. -/
theorem eq_of_line_eq {r r' : Record} (h : r.line = r'.line) : r = r' := by
  have hlines : jsonLine r.fields = jsonLine r'.fields := String.ofList_injective h
  have hread := readJson?_jsonLine r'.fields
  rw [← hlines, readJson?_jsonLine, Option.some.injEq, Json.object.injEq] at hread
  exact eq_of_fields_eq ((List.map_inj_right fun _ _ => member_injective).1 hread)

/-- An event is written as the line of its record. Such a line has one newline, at its end, and no other
control character; it reads as an object with just the fields of the record, each once, and no other
record has the same line. -/
theorem lines_are_exact :
    (∀ event : Event, event.line = event.record.line) ∧
    ∀ r : Record,
      (∃ content : List Char, r.line = String.ofList (content ++ ['\n']) ∧
        ∀ c ∈ content, 0x20 ≤ c.toNat) ∧
      readJson? r.line.toList = some (.object (r.fields.map member)) ∧
      (r.fields.map Prod.fst).Nodup ∧
      ∀ other : Record, other.line = r.line → other = r := by
  refine ⟨fun event => ?_, fun r => ⟨⟨objectText r.fields, ?_, ?_⟩, ?_, r.nodup_fields, ?_⟩⟩
  · rw [Event.line, line, fields_record]
  · rw [line, jsonLine_eq]
  · intro c hc
    exact le_toNat_of_mem_objectText hc
  · rw [line, String.toList_ofList, readJson?_jsonLine]
  · intro other h
    exact eq_of_line_eq h

end Record

end AssetBake.Report
