import AssetBake.Proofs.CommandLine.Switches
import AssetBake.Proofs.Job.Collecting
import AssetBake.Proofs.Report.Lines
import AssetBake.Session
import Mathlib

/-!
# Event streams

What a run says on standard output when it has been asked for events. Warnings come first, then the
event that begins a command, then what the command finds, and one last event that tells how the run
went. A run whose settings cannot be worked out does not begin a command.
-/

namespace AssetBake

open Report (Event)

/-- The events of a run in their order. -/
structure EventStream where
  warnings : List Event
  start : Option Event
  assets : List Event
  ending : Event

namespace EventStream

def events (stream : EventStream) : List Event :=
  stream.warnings ++ stream.start.toList ++ stream.assets ++ [stream.ending]

/-- Each part of the stream holds events of its own kind. Assets are followed by a complete event, and a
complete event has a start in front of it. -/
structure IsOrdered (stream : EventStream) : Prop where
  warnings : ∀ e ∈ stream.warnings, e.Is "warning"
  start : ∀ e ∈ stream.start, e.Is "start"
  assets : ∀ e ∈ stream.assets, e.Is "asset"
  ending : stream.ending.Is "error" ∧ stream.assets = [] ∨
    stream.ending.Is "complete" ∧ stream.start.isSome = true

/-- The assets of the stream are those that the listing of keys plans, in the order of the plan. -/
structure Lists (stream : EventStream) (t : FileTree) (around : Surroundings)
    (arguments : CommandLine.Arguments) : Prop where
  assets_eq_nil : arguments.command ≠ some .list → stream.assets = []
  assets_eq : arguments.command = some .list →
    ∀ config, (Session.settings t around arguments).result = .ok config →
      ∀ planned, (Job.plan t around.cwd config).result = .ok planned →
        stream.assets = planned.map .asset ∧ stream.ending.Is "complete"
  assets_field : arguments.command = some .list → stream.ending.Is "complete" →
    stream.ending.fields.lookup "assets" = some (.number stream.assets.length)

/-- The stream is all that a run says on standard output, and tells how the run went. -/
structure Reports (stream : EventStream) (t : FileTree) (around : Surroundings)
    (arguments : CommandLine.Arguments) : Prop where
  output_eq : (Session.run t around arguments).output = String.join (stream.events.map (·.line))
  isLine : ∀ e ∈ stream.events, Report.IsLine e.line
  isOrdered : stream.IsOrdered
  isTerminal_iff : ∀ {front e back}, stream.events = front ++ e :: back →
    (e.IsTerminal ↔ back = [])
  start_eq_none_iff : stream.start = none ↔
    ∃ failure, (Session.settings t around arguments).result = .error failure
  lists : stream.Lists t around arguments
  exitCode_eq_zero_iff :
    (Session.run t around arguments).exitCode = 0 ↔ stream.ending.IsSuccess
  exitCode_eq : (Session.run t around arguments).exitCode = 0 ∨
    (Session.run t around arguments).exitCode = 1

/-- The one event of an ordered stream that tells how the run went is the last one. -/
theorem IsOrdered.isTerminal_iff {stream : EventStream} (h : stream.IsOrdered) {front back : List Event}
    {e : Event} (hevents : stream.events = front ++ e :: back) : e.IsTerminal ↔ back = [] := by
  induction back using List.reverseRecOn with
  | nil =>
    have hlast : stream.ending = e := by
      have htail := (List.append_inj' hevents rfl).2
      simpa using htail
    rw [← hlast]
    refine ⟨fun _ => rfl, fun _ => ?_⟩
    rcases h.ending with hending | hending
    · exact .inr hending.1
    · exact .inl hending.1
  | append_singleton back last _ =>
    have hearlier : e ∈ stream.warnings ++ stream.start.toList ++ stream.assets := by
      rw [← List.cons_append, ← List.append_assoc] at hevents
      rw [(List.append_inj' hevents rfl).1]
      simp
    simp only [List.append_eq_nil_iff, List.cons_ne_nil, and_false, iff_false]
    rw [List.mem_append, List.mem_append, Option.mem_toList] at hearlier
    rcases hearlier with (hwarning | hstart) | hasset
    · exact Event.not_isTerminal (h.warnings e hwarning) (by decide) (by decide)
    · exact Event.not_isTerminal (h.start e hstart) (by decide) (by decide)
    · exact Event.not_isTerminal (h.assets e hasset) (by decide) (by decide)

end EventStream

theorem Traced.notes_bind {ν ε α β : Type} (x : Traced ν ε α) (f : α → Traced ν ε β) :
    (x >>= f).notes = x.notes ++ match x.result with
      | .error _ => []
      | .ok a => (f a).notes := by
  cases h : x.result <;> simp [bind, h]

namespace Session

/-! ### What stands on standard output -/

/-- What is said on standard output is these events, with nothing for a person between them. -/
inductive Says : List Utterance → List Event → Prop
  | nil : Says [] []
  | event {e : Event} {said : List Utterance} {events : List Event} :
      Says said events → Says (.event e :: said) (e :: events)
  | told {text : String} {said : List Utterance} {events : List Event} :
      Says said events → Says (.told text :: said) events
  | logged {record : Log.Record} {said : List Utterance} {events : List Event} :
      Says said events → Says (.logged record :: said) events

namespace Says

theorem output_eq {said : List Utterance} {events : List Event} (h : Says said events) :
    String.join (said.map Utterance.output) = String.join (events.map (·.line)) := by
  induction h with
  | nil => rfl
  | event _ ih | told _ ih | logged _ ih => simpa [Utterance.output, String.join_cons] using ih

theorem append {front back : List Utterance} {events more : List Event}
    (hfront : Says front events) (hback : Says back more) :
    Says (front ++ back) (events ++ more) := by
  induction hfront with
  | nil => exact hback
  | event _ ih => exact .event ih
  | told _ ih => exact .told ih
  | logged _ ih => exact .logged ih

theorem map_event {α : Type} (f : α → Event) (l : List α) :
    Says (l.map fun a => .event (f a)) (l.map f) := by
  induction l with
  | nil => exact .nil
  | cons a l ih => exact .event ih

theorem map_logged (records : List Log.Record) : Says (records.map .logged) [] := by
  induction records with
  | nil => exact .nil
  | cons record records ih => exact .logged ih

/-- A part that says nothing more leaves the events as they are. -/
theorem bind {α β : Type} {x : Part α} {f : α → Part β} {events : List Event}
    (hx : Says x.notes events) (hf : ∀ a, Says (f a).notes []) : Says (x >>= f).notes events := by
  rw [Traced.notes_bind, ← List.append_nil events]
  cases x.result with
  | error failure => exact hx.append .nil
  | ok a => exact hx.append (hf a)

end Says

variable (t : FileTree) (around : Surroundings) {arguments : CommandLine.Arguments}

/-! ### Settings -/

/-- The warnings about a configuration file, if it gives settings at all. -/
def warningsOf : Option Path → List Config.Warning
  | none => []
  | some file =>
    match Config.load t around.cwd file with
    | .error _ => []
    | .ok (_, warnings) => warnings

/-- The configuration file is read with nothing but warnings. -/
theorem says_loadFile (file : Option Path) :
    Says (loadFile t around true file).notes ((warningsOf t around file).map .warning) := by
  cases file with
  | none => exact .nil
  | some file =>
    cases hload : Config.load t around.cwd file with
    | error failure =>
      simp only [loadFile, Part.say, Traced.notes_bind, Traced.notes_note, Traced.result_note,
        Traced.notes_ofExcept, Traced.result_ofExcept, warningsOf, hload]
      exact .logged .nil
    | ok loaded =>
      simp only [loadFile, Part.say, Traced.notes_bind, Traced.notes_note, Traced.result_note,
        Traced.notes_ofExcept, Traced.result_ofExcept, warningsOf, hload, Traced.notes_pure,
        List.append_nil]
      exact .logged (.map_event .warning loaded.2)

def fileWarnings (arguments : CommandLine.Arguments) : List Config.Warning :=
  warningsOf t around (Config.discover t around.cwd arguments.config (absolutePath around.cwd))

theorem says_settings (hjson : arguments.json = true) :
    Says (settings t around arguments).notes
      ((fileWarnings t around arguments).map .warning) := by
  rw [settings, hjson]
  apply (says_loadFile t around _).bind
  intro below
  apply Says.bind (.map_logged _)
  intro _
  apply Says.bind .nil
  intro _
  exact .nil

/-! ### Commands -/

/-- What a job leads to if it does not fail. -/
def ifDone {β : Type} (result : Except Failure β) (events : β → List Event) : List Event :=
  match result with
  | .error _ => []
  | .ok b => events b

/-- A command says that it begins, and then what it says when its job is done. -/
theorem says_command (hjson : arguments.json = true) (command : CommandLine.Command)
    (config : Config) {β : Type} (job : Traced Log.Record Failure β) {f : β → Part Bool}
    {events : β → List Event} (hf : ∀ b, Says (f b).notes (events b)) :
    Says (begin arguments command config >>= fun _ => Part.ofLogged job >>= f).notes
      (.start command.word config.input config.output :: ifDone job.result events) := by
  have hbegin : begin arguments command config =
      .note [.event (.start command.word config.input config.output)] := by
    rw [begin, hjson]
    rfl
  rw [hbegin, Traced.notes_bind, Traced.notes_note, Traced.result_note]
  refine .event ?_
  rw [Part.ofLogged, Traced.notes_bind, Traced.result_mapNotes]
  refine Says.append (.map_logged job.notes) ?_
  cases job.result with
  | error failure => exact .nil
  | ok b => exact hf b

/-- A command goes as its job goes. -/
theorem result_command (command : CommandLine.Command) (config : Config) {β : Type}
    (job : Traced Log.Record Failure β) {f : β → Part Bool} {success : β → Bool}
    (hf : ∀ b, (f b).result = .ok (success b)) :
    (begin arguments command config >>= fun _ => Part.ofLogged job >>= f).result =
      job.result.map success := by
  cases hjob : job.result with
  | error failure => simp [begin, Part.say, Part.ofLogged, hjob, Except.map]
  | ok b => simp [begin, Part.say, Part.ofLogged, hjob, Except.map, hf]

theorem says_generate (hjson : arguments.json = true) (config : Config) :
    Says (generate t around arguments config).2.notes
      (.start "generate" config.input config.output ::
        ifDone (Job.generate t around.cwd config).2.result fun done => [.generated done]) := by
  refine says_command hjson .generate config (Job.generate t around.cwd config).2 fun done => ?_
  rw [showGenerate, hjson]
  exact .logged (.event .nil)

theorem says_check (hjson : arguments.json = true) (config : Config) :
    Says (check t around arguments config).notes
      (.start "check" config.input config.output ::
        ifDone (Job.check t around.cwd config).result fun done => [.checked done]) := by
  refine says_command hjson .check config (Job.check t around.cwd config) fun done => ?_
  rw [showCheck, hjson]
  exact .event .nil

theorem says_list (hjson : arguments.json = true) (config : Config) :
    Says (list t around arguments config).notes
      (.start "list" config.input config.output ::
        ifDone (Job.plan t around.cwd config).result fun planned =>
          planned.map .asset ++ [.listed planned.length]) := by
  refine says_command hjson .list config (Job.plan t around.cwd config) fun planned => ?_
  rw [showList, hjson]
  refine Says.bind ?_ fun _ => .nil
  exact (Says.map_event .asset planned).append (.event .nil)

/-- What a command that is done has said after its start. -/
structure Completes (arguments : CommandLine.Arguments) (config : Config) (success : Bool)
    (assets : List Event) (ending : Event) : Prop where
  assets_is : ∀ e ∈ assets, e.Is "asset"
  ending_is : ending.Is "complete"
  success_field : ending.fields.lookup "success" = some (.truth success)
  assets_eq_nil : arguments.command ≠ some .list → assets = []
  assets_eq : arguments.command = some .list →
    ∀ planned, (Job.plan t around.cwd config).result = .ok planned → assets = planned.map .asset
  assets_field : arguments.command = some .list →
    ending.fields.lookup "assets" = some (.number assets.length)

/-- A command fails after its start, or says that it is done. -/
def Performs (arguments : CommandLine.Arguments) (config : Config) (part : Part Bool)
    (start : Event) : Prop :=
  (∃ failure, part.result = .error failure ∧ Says part.notes [start] ∧
    (arguments.command = some .list → (Job.plan t around.cwd config).result = .error failure)) ∨
  ∃ success assets ending, part.result = .ok success ∧
    Says part.notes (start :: (assets ++ [ending])) ∧
    Completes t around arguments config success assets ending

variable {t around}

/-- How a command goes is how its job goes. -/
theorem performs_of_job {config : Config} {part : Part Bool} {start : Event} {β : Type}
    {result : Except Failure β} {success : β → Bool} {events : β → List Event}
    (hsaid : Says part.notes (start :: ifDone result events))
    (hresult : part.result = result.map success)
    (hlist : arguments.command = some .list → ∀ failure, result = .error failure →
      (Job.plan t around.cwd config).result = .error failure)
    (hdone : ∀ b, result = .ok b → ∃ assets ending, events b = assets ++ [ending] ∧
      Completes t around arguments config (success b) assets ending) :
    Performs t around arguments config part start := by
  cases result with
  | error failure => exact .inl ⟨failure, hresult, hsaid, fun h => hlist h failure rfl⟩
  | ok b =>
    obtain ⟨assets, ending, hevents, hcompletes⟩ := hdone b rfl
    refine .inr ⟨success b, assets, ending, hresult, ?_, hcompletes⟩
    rw [← hevents]
    exact hsaid

/-- Commands other than the listing of keys say of no assets. -/
theorem completes_of_ne {config : Config} (hother : arguments.command ≠ some .list)
    {success : Bool} {ending : Event} (hending : ending.Is "complete")
    (hsuccess : ending.fields.lookup "success" = some (.truth success)) :
    Completes t around arguments config success [] ending where
  assets_is := by simp
  ending_is := hending
  success_field := hsuccess
  assets_eq_nil _ := rfl
  assets_eq h := absurd h hother
  assets_field h := absurd h hother

/-- Keys are listed only where this is asked for: no command stands for another one. -/
theorem command_eq_list_iff :
    arguments.command = some .list ↔ arguments.command.getD .generate = .list := by
  rcases arguments.command with _ | _ | _ | _ <;> decide

theorem performs (hjson : arguments.json = true) (config : Config) :
    Performs t around arguments config (perform t around arguments config).2
      (.start (arguments.command.getD .generate).word config.input config.output) := by
  have hlist := @command_eq_list_iff arguments
  rw [perform]
  cases hcommand : arguments.command.getD .generate with
  | generate =>
    have hother : arguments.command ≠ some .list := by simp [hlist, hcommand]
    apply performs_of_job (says_generate t around hjson config)
    · exact result_command .generate config _ fun _ => rfl
    · exact fun h => absurd h hother
    · intro done _
      exact ⟨[], _, rfl, completes_of_ne hother rfl rfl⟩
  | check =>
    have hother : arguments.command ≠ some .list := by simp [hlist, hcommand]
    apply performs_of_job (says_check t around hjson config)
    · exact result_command .check config _ fun _ => rfl
    · exact fun h => absurd h hother
    · intro done _
      exact ⟨[], _, rfl, completes_of_ne hother rfl rfl⟩
  | list =>
    apply performs_of_job (says_list t around hjson config)
    · exact result_command .list config _ fun _ => rfl
    · exact fun _ _ h => h
    · intro planned hplanned
      refine ⟨planned.map .asset, _, rfl, ?_, rfl, rfl, ?_, ?_, ?_⟩
      · intro e he
        obtain ⟨p, _, rfl⟩ := List.mem_map.1 he
        exact Event.is_asset p
      · exact fun hother => absurd (hlist.2 hcommand) hother
      · intro _ other hother
        rw [hplanned] at hother
        rw [Except.ok.inj hother]
      · intro _
        rw [List.length_map]
        rfl

variable (t around)

/-! ### Runs -/

variable (arguments)

/-- A run whose settings cannot be worked out. -/
theorem says_run_of_settings_error (hjson : arguments.json = true) {failure : Failure}
    (hsettings : (settings t around arguments).result = .error failure) :
    Says (run t around arguments).said
      ((fileWarnings t around arguments).map .warning ++ [.failed failure]) ∧
      (run t around arguments).success = false := by
  simp only [run, hsettings, ofPart, complain, hjson, if_true]
  exact ⟨(says_settings t around hjson).append (.event .nil), trivial⟩

/-- A run whose command ends with a result, or fails. -/
theorem says_run_of_settings_ok (hjson : arguments.json = true) {config : Config}
    (hsettings : (settings t around arguments).result = .ok config) {events : List Event}
    (hperform : Says (perform t around arguments config).2.notes events) :
    match (perform t around arguments config).2.result with
    | .error failure =>
      Says (run t around arguments).said
        ((fileWarnings t around arguments).map .warning ++ events ++ [.failed failure]) ∧
        (run t around arguments).success = false
    | .ok success =>
      Says (run t around arguments).said
        ((fileWarnings t around arguments).map .warning ++ events) ∧
        (run t around arguments).success = success := by
  have hwarnings := says_settings t around hjson
  simp only [run, hsettings, ofPart, complain, hjson, if_true]
  cases hresult : (perform t around arguments config).2.result with
  | error failure =>
    exact ⟨(hwarnings.append hperform).append (.event .nil), rfl⟩
  | ok success => exact ⟨hwarnings.append hperform, rfl⟩

theorem exitCode_eq_zero_iff (session : Session) :
    session.exitCode = 0 ↔ session.success = true := by
  cases hsuccess : session.success <;> simp [exitCode, hsuccess]

theorem exitCode_eq (session : Session) : session.exitCode = 0 ∨ session.exitCode = 1 := by
  cases hsuccess : session.success <;> simp [exitCode, hsuccess]

/-- Where events are asked for, less output for a person changes nothing. -/
theorem said_run_quiet (hjson : arguments.json = true) (quiet : Bool) :
    (run t around { arguments with quiet := quiet }).said = (run t around arguments).said := by
  obtain ⟨json, verbose, quiet', command, config, layer⟩ := arguments
  obtain rfl : json = true := hjson
  rcases command with _ | _ | _ | _
  · rfl
  · rfl
  · rfl
  · rfl

theorem warnings_are (warnings : List Config.Warning) :
    ∀ e ∈ warnings.map Event.warning, e.Is "warning" := by
  intro e he
  obtain ⟨w, _, rfl⟩ := List.mem_map.1 he
  exact Event.is_warning w

/-- A stream of the events that are said reports the run. -/
theorem reports_of_said {stream : EventStream} (hsaid : Says (run t around arguments).said stream.events)
    (hordered : stream.IsOrdered)
    (hstart : stream.start = none ↔
      ∃ failure, (settings t around arguments).result = .error failure)
    (hlists : stream.Lists t around arguments)
    (hsuccess : (run t around arguments).success = true ↔ stream.ending.IsSuccess) :
    stream.Reports t around arguments where
  output_eq := by rw [output, hsaid.output_eq]
  isLine e _ := e.isLine_line
  isOrdered := hordered
  isTerminal_iff := hordered.isTerminal_iff
  start_eq_none_iff := hstart
  lists := hlists
  exitCode_eq_zero_iff := (exitCode_eq_zero_iff _).trans hsuccess
  exitCode_eq := exitCode_eq _

/-- A run that fails is no success, by its exit status and by its last event. -/
theorem success_iff_of_failed {failure : Failure} {session : Session}
    (hsuccess : session.success = false) :
    session.success = true ↔ (Event.failed failure).IsSuccess := by
  rw [hsuccess]
  constructor
  · intro h
    cases h
  · intro h
    exact absurd h.1 (Event.not_is_complete failure)

/-- A run whose settings cannot be worked out gives the warnings and the failure. -/
theorem exists_reports_of_settings_error (hjson : arguments.json = true) {failure : Failure}
    (hsettings : (settings t around arguments).result = .error failure) :
    ∃ stream : EventStream, stream.Reports t around arguments := by
  obtain ⟨hsaid, hsuccess⟩ := says_run_of_settings_error t around arguments hjson hsettings
  refine ⟨⟨(fileWarnings t around arguments).map .warning, none, [], .failed failure⟩,
    reports_of_said t around arguments ?_ ?_ ?_ ?_ (success_iff_of_failed hsuccess)⟩
  · simpa [EventStream.events] using hsaid
  · exact ⟨warnings_are _, by simp, by simp, .inl ⟨Event.is_error failure, rfl⟩⟩
  · simp [hsettings]
  · refine ⟨fun _ => rfl, ?_, fun _ h => absurd h (Event.not_is_complete failure)⟩
    intro _ config hconfig
    simp [hsettings] at hconfig

/-- A run whose settings are worked out gives the warnings and the events of its command. -/
theorem exists_reports_of_settings_ok (hjson : arguments.json = true) {config : Config}
    (hsettings : (settings t around arguments).result = .ok config) :
    ∃ stream : EventStream, stream.Reports t around arguments := by
  let start : Event := .start (arguments.command.getD .generate).word config.input config.output
  have hstart : ∀ e ∈ some start, e.Is "start" := by
    rintro e ⟨⟩
    exact Event.is_start ..
  obtain ⟨failure, hresult, hsaid, hlist⟩ |
      ⟨success, assets, ending, hresult, hsaid, hcompletes⟩ := performs hjson config
  · have hrun := says_run_of_settings_ok t around arguments hjson hsettings hsaid
    rw [hresult] at hrun
    refine ⟨⟨(fileWarnings t around arguments).map .warning, some start, [], .failed failure⟩,
      reports_of_said t around arguments ?_ ?_ ?_ ?_ (success_iff_of_failed hrun.2)⟩
    · simpa [EventStream.events, start] using hrun.1
    · exact ⟨warnings_are _, hstart, by simp, .inl ⟨Event.is_error failure, rfl⟩⟩
    · simp [hsettings]
    · refine ⟨fun _ => rfl, ?_, fun _ h => absurd h (Event.not_is_complete failure)⟩
      intro hcommand other hother planned hplanned
      rw [hsettings] at hother
      rw [← Except.ok.inj hother, hlist hcommand] at hplanned
      cases hplanned
  · have hrun := says_run_of_settings_ok t around arguments hjson hsettings hsaid
    rw [hresult] at hrun
    refine ⟨⟨(fileWarnings t around arguments).map .warning, some start, assets, ending⟩,
      reports_of_said t around arguments ?_ ?_ ?_ ?_ ?_⟩
    · simpa [EventStream.events, start] using hrun.1
    · exact ⟨warnings_are _, hstart, hcompletes.assets_is, .inr ⟨hcompletes.ending_is, rfl⟩⟩
    · simp [hsettings]
    · refine ⟨hcompletes.assets_eq_nil, ?_, fun hcommand _ => hcompletes.assets_field hcommand⟩
      intro hcommand other hother planned hplanned
      rw [hsettings] at hother
      rw [← Except.ok.inj hother] at hplanned
      exact ⟨hcompletes.assets_eq hcommand planned hplanned, hcompletes.ending_is⟩
    · rw [hrun.2]
      constructor
      · rintro rfl
        exact ⟨hcompletes.ending_is, hcompletes.success_field⟩
      · intro h
        simpa [Event.IsSuccess, hcompletes.success_field] using h.2

/-- Every run that is asked for events gives a stream of them, and no other output. -/
theorem exists_reports {given : List (List Char)} {arguments : CommandLine.Arguments}
    (hparse : CommandLine.parse given = .ok arguments)
    (hgiven : CommandLine.jsonArgument ∈ given) (t : FileTree) (around : Surroundings) :
    (∃ stream : EventStream, stream.Reports t around arguments) ∧
      ∀ quiet, (run t around { arguments with quiet := quiet }).output =
        (run t around arguments).output := by
  have hjson := CommandLine.json_parse hparse hgiven
  constructor
  · cases hsettings : (settings t around arguments).result with
    | error failure => exact exists_reports_of_settings_error t around arguments hjson hsettings
    | ok config => exact exists_reports_of_settings_ok t around arguments hjson hsettings
  · intro quiet
    rw [output, said_run_quiet t around arguments hjson, ← output]

/-! ### A listing -/

open Job (nameD nameE nameF configD)

/-- A file `f` with settings, one of them unknown, and a directory `d` with two files. -/
def warnedTree : FileTree where
  entries := [([nameF], .file 0o644 (Text.Utf8.encode "[paths]\ninput = \"d\"\ninptu = 1\n")),
    ([nameD], .directory 0o755), ([nameF, nameD], .file 0o644 [0x68, 0x69]),
    ([nameE, nameD], .file 0o644 [])]
  distinct := by decide
  rooted := by simp

def warnedPlan : List Planned :=
  [⟨"std_e".toList, ⟨.ofString "d/e", .ofString "e"⟩⟩,
    ⟨"std_f".toList, ⟨.ofString "d/f", .ofString "f"⟩⟩]

def unknownSetting : Config.Warning :=
  ⟨"inptu".toList, .ofString "f", some 3, some "input".toList⟩

/-- What `list --json --config f` asks for. -/
def listArguments : CommandLine.Arguments :=
  ⟨true, 0, false, some .list, some (.ofString "f"), {}⟩

def plainSurroundings : Surroundings :=
  ⟨[], ⟨[]⟩, false, false⟩

/-- A warning, the start, both files and the end. -/
def warnedEvents : List Event :=
  .warning unknownSetting :: .start "list" configD.input configD.output ::
    (warnedPlan.map .asset ++ [.listed 2])

theorem load_warnedTree :
    Config.load warnedTree [] (.ofString "f") = .ok (configD, [unknownSetting]) := by
  cbv

theorem result_settings_warnedTree :
    (settings warnedTree plainSurroundings listArguments).result = .ok configD := by
  have hvalid : configD.validate (.ofString "f") = .ok () := rfl
  have hlayers : (configD.overlay (.ofEnvironment plainSurroundings.env)).overlay
      listArguments.layer = configD := rfl
  have hload : (loadFile warnedTree plainSurroundings true (some (.ofString "f"))).result =
      .ok configD := by
    simp [loadFile, Part.say, plainSurroundings, load_warnedTree]
  have hfile : Config.discover warnedTree plainSurroundings.cwd listArguments.config
      (absolutePath plainSurroundings.cwd) = some (.ofString "f") := rfl
  have hjson : listArguments.json = true := rfl
  simp only [settings, Part.say, Traced.result_bind, Traced.result_note, Traced.result_ofExcept,
    Traced.result_pure, hfile, hjson, hload, Except.ok_bind, hlayers, Option.getD_some, hvalid]

theorem plan_warnedTree :
    (Job.plan warnedTree plainSurroundings.cwd configD).result = .ok warnedPlan := by
  cbv

theorem output_run_warnedTree :
    (run warnedTree plainSurroundings listArguments).output =
      String.join (warnedEvents.map (·.line)) := by
  have hwarnings : fileWarnings warnedTree plainSurroundings listArguments = [unknownSetting] := by
    simp [fileWarnings, warningsOf, Config.discover, listArguments, plainSurroundings,
      load_warnedTree]
  have hresult : (perform warnedTree plainSurroundings listArguments configD).2.result = .ok true :=
    (result_command .list configD _ fun _ => rfl).trans (congrArg _ plan_warnedTree)
  have hrun := says_run_of_settings_ok warnedTree plainSurroundings listArguments rfl
    result_settings_warnedTree (says_list warnedTree plainSurroundings rfl configD)
  rw [hresult, hwarnings, plan_warnedTree] at hrun
  exact hrun.1.output_eq

/-- A listing of keys warns of the unknown setting and finds both files. -/
theorem exists_reports_warnedTree :
    CommandLine.parse ["list".toList, "--json".toList, "--config".toList, "f".toList] =
      .ok listArguments ∧
    CommandLine.jsonArgument ∈ ["list".toList, "--json".toList, "--config".toList, "f".toList] ∧
    (∃ stream : EventStream, stream.Reports warnedTree plainSurroundings listArguments ∧
      stream.assets = warnedPlan.map .asset ∧ stream.ending.Is "complete") ∧
    (run warnedTree plainSurroundings listArguments).output =
      String.join (warnedEvents.map (·.line)) := by
  have hparse : CommandLine.parse ["list".toList, "--json".toList, "--config".toList, "f".toList] =
      .ok listArguments := by cbv
  have hgiven : CommandLine.jsonArgument ∈
      ["list".toList, "--json".toList, "--config".toList, "f".toList] := by decide
  obtain ⟨stream, hreports⟩ := (exists_reports hparse hgiven warnedTree plainSurroundings).1
  have hassets := hreports.lists.assets_eq rfl configD result_settings_warnedTree warnedPlan
    plan_warnedTree
  exact ⟨hparse, hgiven, ⟨stream, hreports, hassets⟩, output_run_warnedTree⟩

end Session

end AssetBake
