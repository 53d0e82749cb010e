import AssetBake.CommandLine.Parser
import AssetBake.Proofs.Fallible
import Mathlib.Data.List.Induction

/-!
# Uses of options

What a list of options asks for, computed from the list alone. An option that stands for one thing may
be used once; exclude lines are collected, and the requests for more output are counted. Giving a use
after others to what has been read takes the summary of the others to the summary with it, or is
refused for being the second of its kind.
-/

namespace AssetBake.CommandLine

/-- One use of an option. -/
inductive Use
  | switch (s : Switch)
  | setting (s : Setting) (value : List Char)
deriving DecidableEq

def Use.choice : Use → Choice
  | switch s => .switch s
  | setting s _ => .setting s

/-- Whether an option may be used once only. -/
def isSingle (choice : Choice) : Bool :=
  decide (choice ≠ .switch .verbose ∧ choice ≠ .setting .exclude)

/-! ### Values -/

def strategyWords : List (String × Strategy) :=
  [("raw", .raw), ("escaped", .escaped)]

def namesWords : List (String × NamePolicy) :=
  [("reject", .reject), ("sanitize", .sanitize)]

def guardWords : List (String × GuardStyle) :=
  [("pragma", .pragma), ("macro", .define)]

/-- What one of a few words stands for. -/
def meaningOf? {α : Type} (words : List (String × α)) (value : List Char) : Option α :=
  (words.find? fun w => w.1.toList == value).map (·.2)

/-- Whether a setting takes a value: a path is not empty, and a word is one of those known. -/
def Setting.takes (value : List Char) : Setting → Bool
  | config | input | output => !value.isEmpty
  | strategy => (meaningOf? strategyWords value).isSome
  | names => (meaningOf? namesWords value).isSome
  | guard => (meaningOf? guardWords value).isSome
  | _ => true

/-- The options that a run can be given, with values that they take. -/
def Use.IsSound : Use → Prop
  | switch s => s ≠ .help ∧ s ≠ .version
  | setting s value => s.takes value = true

/-! ### What uses ask for -/

def valueOf? (s : Setting) (uses : List Use) : Option (List Char) :=
  uses.findSome? fun use =>
    match use with
    | .setting other value => if other = s then some value else none
    | .switch _ => none

def excludeLines (uses : List Use) : List (List Char) :=
  uses.filterMap fun use =>
    match use with
    | .setting .exclude value => some value
    | _ => none

/-- How often more output is asked for. -/
def verbosity (uses : List Use) : Nat :=
  uses.countP fun use => decide (use.choice = .switch .verbose)

def pathOf (value : List Char) : Path :=
  .ofString (String.ofList value)

def isUsed (choice : Choice) (uses : List Use) : Bool :=
  uses.any fun use => decide (use.choice = choice)

/-- What uses that follow each other ask for. -/
def summary (uses : List Use) : Given where
  json := isUsed (.switch .json) uses
  verbose := min (verbosity uses) 255
  quiet := isUsed (.switch .quiet) uses
  config := (valueOf? .config uses).map pathOf
  layer :=
    { input := (valueOf? .input uses).map pathOf
      output := (valueOf? .output uses).map pathOf
      lead := valueOf? .lead uses
      joiner := valueOf? .joiner uses
      names := (valueOf? .names uses).bind (meaningOf? namesWords)
      strategy := (valueOf? .strategy uses).bind (meaningOf? strategyWords)
      delimiter := valueOf? .delimiter uses
      table := valueOf? .table uses
      guard := (valueOf? .guard uses).bind (meaningOf? guardWords)
      exclude := excludeLines uses
      followLinks := isUsed (.switch .followLinks) uses }

/-- The options used that may be used once only. -/
def singles (uses : List Use) : List Choice :=
  (uses.map Use.choice).filter isSingle

/-- Uses that are refused when they stand together: two of an option that may be used once only, and a
request for more output beside one for less. -/
def Refused (uses : List Use) : Prop :=
  ¬(singles uses).Nodup ∨ isUsed (.switch .quiet) uses = true ∧ verbosity uses ≠ 0

instance : DecidablePred Refused := fun _ =>
  inferInstanceAs (Decidable (_ ∨ _))

/-! ### One more use -/

section Append

variable (uses more : List Use) (choice : Choice) (setting : Setting)

@[simp] theorem isUsed_append :
    isUsed choice (uses ++ more) = (isUsed choice uses || isUsed choice more) :=
  List.any_append

@[simp] theorem isUsed_singleton (use : Use) : isUsed choice [use] = decide (use.choice = choice) := by
  simp [isUsed]

@[simp] theorem verbosity_append : verbosity (uses ++ more) = verbosity uses + verbosity more :=
  List.countP_append

@[simp] theorem excludeLines_append :
    excludeLines (uses ++ more) = excludeLines uses ++ excludeLines more :=
  List.filterMap_append

@[simp] theorem valueOf?_append :
    valueOf? setting (uses ++ more) = (valueOf? setting uses).or (valueOf? setting more) :=
  List.findSome?_append

@[simp] theorem valueOf?_switch (s : Switch) : valueOf? setting [.switch s] = none := rfl

@[simp] theorem valueOf?_setting (other : Setting) (value : List Char) :
    valueOf? setting [.setting other value] = if other = setting then some value else none := by
  by_cases h : other = setting <;> simp [valueOf?, h]

@[simp] theorem verbosity_singleton (use : Use) :
    verbosity [use] = if use.choice = .switch .verbose then 1 else 0 := by
  simp [verbosity]

@[simp] theorem excludeLines_switch (s : Switch) : excludeLines [.switch s] = [] := rfl

@[simp] theorem excludeLines_setting (s : Setting) (value : List Char) :
    excludeLines [.setting s value] = if s = .exclude then [value] else [] := by
  cases s <;> rfl

theorem isUsed_setting : isUsed (.setting setting) uses = (valueOf? setting uses).isSome := by
  induction uses with
  | nil => rfl
  | cons use uses ih =>
    cases use with
    | switch s => simpa [isUsed, valueOf?, Use.choice] using ih
    | setting other value =>
      by_cases h : other = setting
      · simp [isUsed, valueOf?, Use.choice, h]
      · simpa [isUsed, valueOf?, Use.choice, h] using ih

end Append

/-- What is given with one more option that has been read completely. -/
def Given.apply (given : Given) : Use → Except Refusal Given
  | .switch s => given.turnOn s
  | .setting s value => given.put s value

theorem mem_of_valueOf? {s : Setting} {uses : List Use} {value : List Char}
    (h : valueOf? s uses = some value) : .setting s value ∈ uses := by
  obtain ⟨use, huse, hvalue⟩ := List.exists_of_findSome?_eq_some h
  cases use with
  | switch other => simp at hvalue
  | setting other v =>
    obtain ⟨rfl, rfl⟩ : other = s ∧ v = value := by simpa using hvalue
    exact huse

theorem pathValue_of_takes {value : List Char} (h : (!value.isEmpty) = true) :
    Given.pathValue value = .ok (pathOf value) := by
  rw [Bool.not_eq_true'] at h
  rw [Given.pathValue, h]
  rfl

theorem wordValue_of_meaningOf? {α : Type} {words : List (String × α)} {value : List Char} {a : α}
    (h : meaningOf? words value = some a) : Given.wordValue words value = .ok a := by
  obtain ⟨w, hw, rfl⟩ := Option.map_eq_some_iff.1 h
  rw [Given.wordValue, hw]

/-- A word is put in its place if there is none, and refused if there is one. -/
theorem once_word {α : Type} {words : List (String × α)} {old : Option (List Char)}
    {value : List Char} (hold : ∀ v, old = some v → (meaningOf? words v).isSome = true)
    (hvalue : (meaningOf? words value).isSome = true) :
    Given.once (old.bind (meaningOf? words)) (Given.wordValue words value) =
      if old.isSome then .error .argumentConflict else .ok (meaningOf? words value) := by
  obtain ⟨a, ha⟩ := Option.isSome_iff_exists.1 hvalue
  cases old with
  | none => simp [Given.once, wordValue_of_meaningOf? ha, ha, Except.map]
  | some v =>
    obtain ⟨b, hb⟩ := Option.isSome_iff_exists.1 (hold v rfl)
    simp [Given.once, hb]

/-- One more use of an option, after others. -/
theorem apply_summary {use : Use} (hsound : use.IsSound) {uses : List Use}
    (huses : ∀ u ∈ uses, u.IsSound) :
    (summary uses).apply use =
      if isSingle use.choice && isUsed use.choice uses then .error .argumentConflict
      else .ok (summary (uses ++ [use])) := by
  cases use with
  | switch s =>
    generalize hused : isUsed (.switch s) uses = used
    cases s with
    | help => exact absurd rfl hsound.1
    | version => exact absurd rfl hsound.2
    | verbose =>
      have hcount : min (min (verbosity uses) 255 + 1) 255 = min (verbosity uses + 1) 255 := by omega
      simp [Given.apply, Given.turnOn, Given.settle, summary, Use.choice, isSingle, hcount]
    | json | quiet | followLinks =>
      cases used <;>
        simp [Given.apply, Given.turnOn, Given.settle, summary, Use.choice, isSingle, hused]
  | setting s value =>
    have hused := isUsed_setting uses s
    have htakes : ∀ v, valueOf? s uses = some v → s.takes v = true := fun v h =>
      huses _ (mem_of_valueOf? h)
    generalize hold : valueOf? s uses = old at hused htakes
    cases s with
    | exclude => simp [Given.apply, Given.put, summary, Use.choice, isSingle]
    | config | input | output =>
      have hpath := pathValue_of_takes hsound
      cases old <;>
        simp [Given.apply, Given.put, Given.once, Except.map, summary, Use.choice, isSingle, hpath,
          hold, hused]
    | lead | joiner | delimiter | table =>
      cases old <;>
        simp [Given.apply, Given.put, Given.once, Except.map, summary, Use.choice, isSingle, hold,
          hused]
    | strategy | names | guard =>
      have hword := once_word htakes hsound
      simp only [strategyWords, namesWords, guardWords] at hword
      simp only [Given.apply, Given.put, summary, strategyWords, namesWords, guardWords, hold, hword]
      cases old <;> simp [Use.choice, isSingle, hold, hused]

/-! ### All uses of a list -/

/-- What is given when the uses of a list have been read one after another. -/
def total (uses : List Use) : Except Refusal Given :=
  uses.foldlM Given.apply {}

theorem total_append_singleton (uses : List Use) (use : Use) :
    total (uses ++ [use]) = total uses >>= (·.apply use) := by
  simp only [total, List.foldlM_append, List.foldlM_cons, List.foldlM_nil, bind_pure]

theorem singles_append (uses more : List Use) :
    singles (uses ++ more) = singles uses ++ singles more := by
  simp [singles]

theorem singles_singleton (use : Use) :
    singles [use] = if isSingle use.choice then [use.choice] else [] := by
  cases h : isSingle use.choice <;> simp [singles, h]

theorem mem_singles {uses : List Use} {choice : Choice} (h : isSingle choice = true) :
    choice ∈ singles uses ↔ isUsed choice uses = true := by
  simp [singles, isUsed, h]

/-- One more use repeats an option if it is of one that may be used once only, and has been. -/
theorem nodup_singles_append_singleton (uses : List Use) (use : Use) :
    (singles (uses ++ [use])).Nodup ↔
      (singles uses).Nodup ∧ ¬(isSingle use.choice && isUsed use.choice uses) = true := by
  rw [singles_append, singles_singleton]
  cases h : isSingle use.choice with
  | false => simp
  | true => simp [List.nodup_append, ← mem_singles h, List.forall_mem_ne']

/-- The options of a list ask for what its summary says, unless one is used once more than it may be. -/
theorem total_eq {uses : List Use} (h : ∀ u ∈ uses, u.IsSound) :
    total uses =
      if (singles uses).Nodup then .ok (summary uses) else .error .argumentConflict := by
  induction uses using List.reverseRecOn with
  | nil => rfl
  | append_singleton uses use ih =>
    have huses : ∀ u ∈ uses, u.IsSound := fun u hu => h u (List.mem_append_left _ hu)
    have huse : use.IsSound := h use (by simp)
    rw [total_append_singleton, ih huses]
    by_cases hnodup : (singles uses).Nodup
    · by_cases hagain : (isSingle use.choice && isUsed use.choice uses) = true
      · rw [if_pos hnodup, if_neg fun h => ((nodup_singles_append_singleton ..).1 h).2 hagain]
        simp only [Except.ok_bind, apply_summary huse huses, hagain, if_true]
      · rw [if_pos hnodup, if_pos ((nodup_singles_append_singleton ..).2 ⟨hnodup, hagain⟩)]
        simp only [Except.ok_bind, apply_summary huse huses, hagain]
        rfl
    · rw [if_neg hnodup, if_neg fun h => hnodup ((nodup_singles_append_singleton ..).1 h).1]
      rfl

end AssetBake.CommandLine
