import AssetBake.Proofs.CommandLine.Uses
import Mathlib.Data.List.TakeWhile

/-!
# Options on both sides of the command

How uses of options are spelled, and what the program makes of the same spelled options in front of
the command, behind it, or on both sides of it. Behind the command all of them are taken together. On
both sides, each side is taken alone, and what an option says behind the command stands in place of
what it says in front of it.
-/

namespace AssetBake.CommandLine

/-! ### Spelling -/

/-- An argument that does not begin an option, so that a value may stand alone in it. -/
def StandsAlone (value : List Char) : Prop :=
  value = ['-'] ∨ value.head? ≠ some '-'

/-- Short options behind one hyphen, the uses they spell, and the setting that waits for the next
argument as its value. -/
inductive Cluster : List Char → List Use → Option Setting → Prop
  | nil : Cluster [] [] none
  | switch {c : Char} {s : Switch} {shorts : List Char} {uses : List Use}
      {waiting : Option Setting} :
      (c, .switch s) ∈ shortOptions → (Use.switch s).IsSound → Cluster shorts uses waiting →
      Cluster (c :: shorts) (.switch s :: uses) waiting
  | attached {c : Char} {s : Setting} {value : List Char} :
      (c, .setting s) ∈ shortOptions → (Use.setting s value).IsSound →
      Cluster (c :: '=' :: value) [.setting s value] none
  | joined {c : Char} {s : Setting} {value : List Char} :
      (c, .setting s) ∈ shortOptions → (Use.setting s value).IsSound → value ≠ [] →
      value.head? ≠ some '=' → Cluster (c :: value) [.setting s value] none
  | waiting {c : Char} {s : Setting} :
      (c, .setting s) ∈ shortOptions → Cluster [c] [] (some s)

/-- Arguments that spell uses of options with values that the options take. -/
inductive Spells : List (List Char) → List Use → Prop
  | nil : Spells [] []
  | long {name : String} {s : Switch} {rest : List (List Char)} {uses : List Use} :
      (name, .switch s) ∈ longOptions → (Use.switch s).IsSound → Spells rest uses →
      Spells (('-' :: '-' :: name.toList) :: rest) (.switch s :: uses)
  | attached {name : String} {s : Setting} {value : List Char} {rest : List (List Char)}
      {uses : List Use} :
      (name, .setting s) ∈ longOptions → (Use.setting s value).IsSound → Spells rest uses →
      Spells (('-' :: '-' :: (name.toList ++ '=' :: value)) :: rest) (.setting s value :: uses)
  | apart {name : String} {s : Setting} {value : List Char} {rest : List (List Char)}
      {uses : List Use} :
      (name, .setting s) ∈ longOptions → (Use.setting s value).IsSound → StandsAlone value →
      Spells rest uses →
      Spells (('-' :: '-' :: name.toList) :: value :: rest) (.setting s value :: uses)
  | shorts {c : Char} {shorts : List Char} {uses : List Use} {rest : List (List Char)}
      {more : List Use} :
      Cluster (c :: shorts) uses none → Spells rest more →
      Spells (('-' :: c :: shorts) :: rest) (uses ++ more)
  | shortsApart {c : Char} {shorts : List Char} {uses : List Use} {s : Setting}
      {value : List Char} {rest : List (List Char)} {more : List Use} :
      Cluster (c :: shorts) uses (some s) → (Use.setting s value).IsSound → StandsAlone value →
      Spells rest more →
      Spells (('-' :: c :: shorts) :: value :: rest) (uses ++ .setting s value :: more)

theorem Spells.append {front back : List (List Char)} {uses more : List Use}
    (hfront : Spells front uses) (hback : Spells back more) :
    Spells (front ++ back) (uses ++ more) := by
  induction hfront with
  | nil => exact hback
  | long hname hsound _ ih => exact .long hname hsound ih
  | attached hname hsound _ ih => exact .attached hname hsound ih
  | apart hname hsound halone _ ih => exact .apart hname hsound halone ih
  | shorts hcluster _ ih =>
    rw [List.append_assoc]
    exact .shorts hcluster ih
  | shortsApart hcluster hsound halone _ ih =>
    rw [List.append_assoc]
    exact .shortsApart hcluster hsound halone ih

theorem Cluster.isSound {shorts : List Char} {uses : List Use} {waiting : Option Setting}
    (h : Cluster shorts uses waiting) : ∀ u ∈ uses, u.IsSound := by
  induction h with
  | nil | waiting => simp
  | switch _ hsound _ ih => exact List.forall_mem_cons.2 ⟨hsound, ih⟩
  | attached _ hsound | joined _ hsound => exact List.forall_mem_singleton.2 hsound

theorem Cluster.ne_hyphen {c : Char} {shorts : List Char} {uses : List Use}
    {waiting : Option Setting} (h : Cluster (c :: shorts) uses waiting) : c ≠ '-' := by
  have hall : ∀ o ∈ shortOptions, o.1 ≠ '-' := by decide
  cases h with
  | switch hname | attached hname | joined hname | waiting hname => exact hall _ hname

theorem Spells.isSound {arguments : List (List Char)} {uses : List Use}
    (h : Spells arguments uses) : ∀ u ∈ uses, u.IsSound := by
  induction h with
  | nil => simp
  | long _ hsound _ ih | attached _ hsound _ ih | apart _ hsound _ _ ih =>
    exact List.forall_mem_cons.2 ⟨hsound, ih⟩
  | shorts hcluster _ ih => exact List.forall_mem_append.2 ⟨hcluster.isSound, ih⟩
  | shortsApart hcluster hsound _ _ ih =>
    exact List.forall_mem_append.2 ⟨hcluster.isSound, List.forall_mem_cons.2 ⟨hsound, ih⟩⟩

/-! ### Names -/

/-- Of the options that can be spelled, only the version is not known behind the command. -/
theorem isKnown_of_ne {choice : Choice} (h : choice ≠ .switch .version) (behindCommand : Bool) :
    isKnown behindCommand choice = true := by
  simp [isKnown, h]

theorem longOption?_of_mem {name : String} {choice : Choice} (h : (name, choice) ∈ longOptions)
    (hversion : choice ≠ .switch .version) (behindCommand : Bool) :
    longOption? behindCommand name.toList = some choice := by
  have hfind : ∀ o ∈ longOptions,
      (longOptions.find? fun other => other.1.toList == o.1.toList) = some o := by decide
  simp [longOption?, hfind _ h, isKnown_of_ne hversion]

theorem shortOption?_of_mem {c : Char} {choice : Choice} (h : (c, choice) ∈ shortOptions)
    (hversion : choice ≠ .switch .version) (behindCommand : Bool) :
    shortOption? behindCommand c = some choice := by
  have hlookup : ∀ o ∈ shortOptions, shortOptions.lookup o.1 = some o.2 := by decide
  simp [shortOption?, hlookup _ h, isKnown_of_ne hversion]

/-! ### Reading one argument -/

/-- What has been read asks for these uses, and the next argument is not a value. -/
structure Stands (given : Given) (uses : List Use) : Prop where
  isSound : ∀ u ∈ uses, u.IsSound
  calm : given.awaitsValue = false
  settle_eq : given.settle = total uses

/-- What has been read asks for these uses, and the next argument is the value of a setting. -/
structure Awaits (given : Given) (setting : Setting) (uses : List Use) : Prop where
  isSound : ∀ u ∈ uses, u.IsSound
  total_eq : total uses = .ok (summary uses)
  given_eq : given = { summary uses with pending := some (setting, none) }

/-- The state that reading an argument ends in, by the setting that waits for its value. -/
def Follows (given : Given) (waiting : Option Setting) (uses : List Use) : Prop :=
  match waiting with
  | none => Stands given uses
  | some setting => Awaits given setting uses

/-- Reading goes on with what has been asked for so far, or is refused as these uses are. -/
def Yields (result : Except Refusal Given) (waiting : Option Setting) (uses : List Use) : Prop :=
  (∃ next, result = .ok next ∧ Follows next waiting uses) ∨
    ∃ refusal, result = .error refusal ∧ total uses = .error refusal

theorem total_eq_ok {uses : List Use} (h : ∀ u ∈ uses, u.IsSound) {given : Given}
    (htotal : total uses = .ok given) : given = summary uses := by
  rw [total_eq h] at htotal
  split at htotal
  · exact (Except.ok.inj htotal).symm
  · cases htotal

theorem total_append_error {uses : List Use} {refusal : Refusal}
    (h : total uses = .error refusal) (more : List Use) :
    total (uses ++ more) = .error refusal := by
  rw [total, List.foldlM_append, ← total, h, Except.error_bind]

theorem Stands.nil : Stands {} [] :=
  ⟨by simp, rfl, rfl⟩

/-- Where the uses read are taken in at once, reading yields them. -/
theorem yields_total {uses : List Use} (h : ∀ u ∈ uses, u.IsSound) :
    Yields (total uses) none uses := by
  cases htotal : total uses with
  | error refusal => exact .inr ⟨refusal, rfl, htotal⟩
  | ok given =>
    obtain rfl := total_eq_ok h htotal
    exact .inl ⟨_, rfl, h, rfl, by rw [htotal]; rfl⟩

section Stands

variable {given : Given} {uses : List Use} (hgiven : Stands given uses)
include hgiven

theorem Stands.turnOn {s : Switch} (hsound : (Use.switch s).IsSound) :
    Yields (given.turnOn s) none (uses ++ [.switch s]) := by
  have hturnOn : given.turnOn s = total (uses ++ [.switch s]) := by
    rw [total_append_singleton, ← hgiven.settle_eq]
    cases hsettle : given.settle with
    | error refusal => simp [Given.turnOn, hsettle]
    | ok settled =>
      have hnone : settled.settle = .ok settled := by
        obtain rfl := total_eq_ok hgiven.isSound (hgiven.settle_eq ▸ hsettle)
        rfl
      simp [Given.turnOn, Given.apply, hsettle, hnone]
  rw [hturnOn]
  exact yields_total (List.forall_mem_append.2 ⟨hgiven.isSound, by simpa using hsound⟩)

theorem Stands.begin_attached {s : Setting} {value : List Char}
    (hsound : (Use.setting s value).IsSound) :
    Yields (given.begin s (some value)) none (uses ++ [.setting s value]) := by
  have hbegin : given.begin s (some value) = total (uses ++ [.setting s value]) := by
    rw [total_append_singleton, ← hgiven.settle_eq]
    rfl
  rw [hbegin]
  exact yields_total (List.forall_mem_append.2 ⟨hgiven.isSound, by simpa using hsound⟩)

theorem Stands.begin_waiting (s : Setting) : Yields (given.begin s none) (some s) uses := by
  cases hsettle : given.settle with
  | error refusal =>
    exact .inr ⟨refusal, by simp [Given.begin, hsettle], hgiven.settle_eq ▸ hsettle⟩
  | ok settled =>
    have htotal := hgiven.settle_eq ▸ hsettle
    obtain rfl := total_eq_ok hgiven.isSound htotal
    exact .inl ⟨_, by simp [Given.begin, hsettle], hgiven.isSound, htotal, rfl⟩

end Stands

/-- The value that was waited for makes a use. -/
theorem Awaits.receive {given : Given} {s : Setting} {uses : List Use} (h : Awaits given s uses)
    {value : List Char} (hsound : (Use.setting s value).IsSound) :
    Stands (given.receive value) (uses ++ [.setting s value]) := by
  rw [h.given_eq]
  refine ⟨List.forall_mem_append.2 ⟨h.isSound, List.forall_mem_singleton.2 hsound⟩, rfl, ?_⟩
  rw [total_append_singleton, h.total_eq]
  rfl

/-- Short options are read one after another. -/
theorem Cluster.readShorts {shorts : List Char} {more : List Use} {waiting : Option Setting}
    (h : Cluster shorts more waiting) (behindCommand : Bool) {given : Given} {uses : List Use}
    (hgiven : Stands given uses) :
    Yields (given.readShorts behindCommand shorts) waiting (uses ++ more) := by
  induction h generalizing given uses with
  | nil =>
    rw [List.append_nil]
    exact .inl ⟨given, rfl, hgiven⟩
  | @switch c s shorts more waiting hname hsound _ ih =>
    have hoption := shortOption?_of_mem hname (by simpa using hsound.2) behindCommand
    rw [Given.readShorts, hoption]
    obtain ⟨next, hnext, hstands⟩ | ⟨refusal, hrefusal, htotal⟩ := hgiven.turnOn hsound
    · simpa [hnext] using ih hstands
    · refine .inr ⟨refusal, by simp [hrefusal], ?_⟩
      simpa using total_append_error htotal more
  | @attached c s value hname hsound =>
    have hoption := shortOption?_of_mem hname (by simp) behindCommand
    rw [Given.readShorts, hoption]
    exact hgiven.begin_attached hsound
  | @joined c s value hname hsound hne hhead =>
    have hoption := shortOption?_of_mem hname (by simp) behindCommand
    rw [Given.readShorts, hoption]
    cases value with
    | nil => exact absurd rfl hne
    | cons d value =>
      have hd : d ≠ '=' := by simpa using hhead
      simpa [hd] using hgiven.begin_attached hsound
  | @waiting c s hname =>
    have hoption := shortOption?_of_mem hname (by simp) behindCommand
    rw [Given.readShorts, hoption, List.append_nil]
    exact hgiven.begin_waiting s

/-! ### Reading all arguments of one side -/

section Names

variable {name : String} (given : Given) (behindCommand : Bool)

theorem name_ne_nil {choice : Choice} (h : (name, choice) ∈ longOptions) : name.toList ≠ [] := by
  have hall : ∀ o ∈ longOptions, o.1.toList ≠ [] := by decide
  exact hall _ h

/-- The name ends in front of the first equals sign. -/
theorem forall_ne_of_mem_longOptions {choice : Choice} (h : (name, choice) ∈ longOptions) :
    ∀ c ∈ name.toList, decide (c ≠ '=') = true := by
  have hall : ∀ o ∈ longOptions, o.1.toList.all (fun c => decide (c ≠ '=')) = true := by decide
  exact List.all_eq_true.1 (hall _ h)

theorem readLong_name {choice : Choice} (h : (name, choice) ∈ longOptions)
    (hversion : choice ≠ .switch .version) :
    given.readLong behindCommand name.toList =
      match choice with
      | .switch s => given.turnOn s
      | .setting s => given.begin s none := by
  have hchars := forall_ne_of_mem_longOptions h
  rw [Given.readLong, List.takeWhile_eq_self_iff.2 hchars, List.dropWhile_eq_nil_iff.2 hchars,
    longOption?_of_mem h hversion]
  cases choice <;> rfl

theorem readLong_attached {s : Setting} (h : (name, .setting s) ∈ longOptions)
    (value : List Char) :
    given.readLong behindCommand (name.toList ++ '=' :: value) = given.begin s (some value) := by
  have hchars := forall_ne_of_mem_longOptions h
  have htake : (name.toList ++ '=' :: value).takeWhile (· ≠ '=') = name.toList := by
    rw [List.takeWhile_append_of_pos hchars]
    simp
  have hdrop : (name.toList ++ '=' :: value).dropWhile (· ≠ '=') = '=' :: value := by
    rw [List.dropWhile_append_of_pos hchars]
    simp
  rw [Given.readLong, htake, hdrop, longOption?_of_mem h (by simp)]
  rfl

end Names

theorem command?_eq_none_of_hyphen (rest : List Char) : Command.ofWord? ('-' :: rest) = none := by
  simp [Command.ofWord?, Command.word]

section Stretch

variable (given : Given) (behindCommand : Bool) (rest : List (List Char))

/-- An argument that begins with two hyphens, and is not just these, is a long option. -/
theorem readStretch_long {name : List Char} (hname : name ≠ []) :
    readStretch behindCommand given (('-' :: '-' :: name) :: rest) =
      given.readLong behindCommand name >>= fun next => readStretch behindCommand next rest := by
  rw [readStretch]
  · simp [command?_eq_none_of_hyphen]
  · exact hname

theorem readStretch_shorts {c : Char} (hc : c ≠ '-') (shorts : List Char) :
    readStretch behindCommand given (('-' :: c :: shorts) :: rest) =
      given.readShorts behindCommand (c :: shorts) >>= fun next =>
        readStretch behindCommand next rest := by
  rw [readStretch]
  · simp [command?_eq_none_of_hyphen]
  · exact fun h _ => hc h
  · exact hc

theorem readStretch_value (hawaits : given.awaitsValue = true) {value : List Char}
    (halone : StandsAlone value) :
    readStretch behindCommand given (value :: rest) =
      readStretch behindCommand (given.receive value) rest := by
  have hfirst : ∀ c shorts, value ≠ '-' :: c :: shorts := by
    rintro c shorts rfl
    rcases halone with h | h
    · simp at h
    · simp at h
  rw [readStretch]
  · simp [hawaits]
  · exact hfirst '-' []
  · exact fun long => hfirst '-' long
  · exact hfirst

end Stretch

/-- Reading comes to the rest of the arguments with these uses behind it, or is refused as they
are. -/
def Reaches (outcome : Except Refusal Stretch) (behindCommand : Bool) (rest : List (List Char))
    (uses : List Use) : Prop :=
  (∃ next, outcome = readStretch behindCommand next rest ∧ Stands next uses) ∨
    ∃ refusal, outcome = .error refusal ∧ total uses = .error refusal

section Reaches

variable {result : Except Refusal Given} {behindCommand : Bool} {uses more : List Use}
  {arguments rest : List (List Char)}

theorem Yields.reaches (h : Yields result none uses)
    (hrest : ∀ next, Stands next uses →
      Reaches (readStretch behindCommand next arguments) behindCommand rest (uses ++ more)) :
    Reaches (result >>= fun next => readStretch behindCommand next arguments) behindCommand rest
      (uses ++ more) := by
  obtain ⟨next, rfl, hstands⟩ | ⟨refusal, rfl, htotal⟩ := h
  · exact hrest next hstands
  · exact .inr ⟨refusal, rfl, total_append_error htotal more⟩

theorem Yields.reaches_value {s : Setting} {value : List Char} (h : Yields result (some s) uses)
    (hsound : (Use.setting s value).IsSound) (halone : StandsAlone value)
    (hrest : ∀ next, Stands next (uses ++ [.setting s value]) →
      Reaches (readStretch behindCommand next arguments) behindCommand rest
        (uses ++ .setting s value :: more)) :
    Reaches (result >>= fun next => readStretch behindCommand next (value :: arguments))
      behindCommand rest (uses ++ .setting s value :: more) := by
  obtain ⟨next, rfl, hawaits⟩ | ⟨refusal, rfl, htotal⟩ := h
  · have hnext : next.awaitsValue = true := by
      rw [hawaits.given_eq]
      rfl
    rw [Except.ok_bind, readStretch_value next behindCommand arguments hnext halone]
    exact hrest _ (hawaits.receive hsound)
  · exact .inr ⟨refusal, rfl, total_append_error htotal _⟩

end Reaches

/-- Arguments that spell uses are read to their end, or refused as the uses are. -/
theorem Spells.reaches {arguments : List (List Char)} {more : List Use}
    (h : Spells arguments more) (behindCommand : Bool) (rest : List (List Char)) {given : Given}
    {uses : List Use} (hgiven : Stands given uses) :
    Reaches (readStretch behindCommand given (arguments ++ rest)) behindCommand rest
      (uses ++ more) := by
  induction h generalizing given uses with
  | nil => exact .inl ⟨given, rfl, by rwa [List.append_nil]⟩
  | @long name s arguments more hname hsound _ ih =>
    rw [List.cons_append, readStretch_long _ _ _ (name_ne_nil hname),
      readLong_name given behindCommand hname (by simpa using hsound.2), List.append_cons]
    exact (hgiven.turnOn hsound).reaches fun next hnext => ih hnext
  | @attached name s value arguments more hname hsound _ ih =>
    rw [List.cons_append, readStretch_long _ _ _ (by simp),
      readLong_attached given behindCommand hname, List.append_cons]
    exact (hgiven.begin_attached hsound).reaches fun next hnext => ih hnext
  | @apart name s value arguments more hname hsound halone _ ih =>
    rw [List.cons_append, readStretch_long _ _ _ (name_ne_nil hname),
      readLong_name given behindCommand hname (by simp)]
    refine (hgiven.begin_waiting s).reaches_value hsound halone fun next hnext => ?_
    simpa using ih hnext
  | @shorts c shorts front arguments more hcluster _ ih =>
    rw [List.cons_append, readStretch_shorts _ _ _ (hcluster.ne_hyphen) , ← List.append_assoc]
    exact (hcluster.readShorts behindCommand hgiven).reaches fun next hnext => ih hnext
  | @shortsApart c shorts front s value arguments more hcluster hsound halone _ ih =>
    rw [List.cons_append, readStretch_shorts _ _ _ (hcluster.ne_hyphen), ← List.append_assoc]
    refine (hcluster.readShorts behindCommand hgiven).reaches_value hsound halone
      fun next hnext => ?_
    simpa using ih hnext

/-! ### One side, and both -/

/-- A side that has been read to its end is checked as the uses on it are. -/
theorem Stands.finish {given : Given} {uses : List Use} (h : Stands given uses) :
    given.finish = if Refused uses then .error .argumentConflict else .ok (summary uses) := by
  rw [Given.finish, h.settle_eq, total_eq h.isSound]
  by_cases hnodup : (singles uses).Nodup
  · have hverbose : min (verbosity uses) 255 = 0 ↔ verbosity uses = 0 := by omega
    simp [hnodup, Refused, summary, hverbose]
  · simp [hnodup, Refused]

theorem refused_of_total {uses : List Use} (h : ∀ u ∈ uses, u.IsSound) {refusal : Refusal}
    (htotal : total uses = .error refusal) : Refused uses ∧ refusal = .argumentConflict := by
  rw [total_eq h] at htotal
  split at htotal
  · cases htotal
  · rename_i hnodup
    exact ⟨.inl hnodup, (Except.error.inj htotal).symm⟩

theorem readStretch_word {given : Given} (hcalm : given.awaitsValue = false) (c : Command)
    (rest : List (List Char)) :
    readStretch false given (c.word.toList :: rest) = .ok ⟨given, some (c, rest)⟩ := by
  have hword : Command.ofWord? c.word.toList = some c := by cases c <;> rfl
  have hfirst : ∀ d shorts, c.word.toList ≠ '-' :: d :: shorts := by
    cases c <;> simp [Command.word]
  rw [readStretch]
  · simp [hcalm, hword]
  · exact hfirst '-' []
  · exact fun long => hfirst '-' long
  · exact hfirst

/-- What uses of options ask for in front of a command and behind it. -/
theorem parse_of_spells {front behind : List (List Char)} {uses more : List Use}
    (hfront : Spells front uses) (hbehind : Spells behind more) (c : Command) :
    parse (front ++ c.word.toList :: behind) =
      if Refused uses ∨ Refused more then .error .argumentConflict
      else .ok (.of (summary uses) (some c) (summary more)) := by
  rw [parse]
  obtain ⟨first, hfirst, hstands⟩ | ⟨refusal, hrefusal, htotal⟩ :=
    hfront.reaches false (c.word.toList :: behind) Stands.nil
  · rw [hfirst, readStretch_word hstands.calm]
    obtain ⟨second, hsecond, hstands'⟩ | ⟨refusal, hrefusal, htotal⟩ :=
      hbehind.reaches true [] Stands.nil
    · rw [List.append_nil] at hsecond
      simp only [Except.ok_bind, hsecond, readStretch, hstands.finish, hstands'.finish]
      simp only [List.nil_append]
      by_cases hmore : Refused more <;> by_cases huses : Refused uses <;> simp [hmore, huses]
    · rw [List.append_nil] at hrefusal
      obtain ⟨hmore, rfl⟩ := refused_of_total hbehind.isSound htotal
      simp [hrefusal, hmore]
  · obtain ⟨huses, rfl⟩ := refused_of_total hfront.isSound htotal
    simp [hrefusal, huses]

/-! ### The two sides compared -/

/-- An option that may be used once only is not used on both sides. -/
theorem isUsed_of_nodup {uses more : List Use} (h : (singles (uses ++ more)).Nodup)
    {choice : Choice} (hsingle : isSingle choice = true) :
    isUsed choice uses = false ∨ isUsed choice more = false := by
  rw [singles_append, List.nodup_append] at h
  by_cases huses : isUsed choice uses = true
  · right
    by_contra hmore
    rw [Bool.not_eq_false, ← mem_singles hsingle] at hmore
    exact h.2.2 choice ((mem_singles hsingle).2 huses) choice hmore rfl
  · exact .inl (Bool.eq_false_iff.2 huses)

theorem summary_nil : summary [] = {} := rfl

theorem not_refused_nil : ¬Refused [] := by
  decide

/-- Uses that are refused are refused among others too. -/
theorem Refused.sublist {uses more : List Use} (h : Refused uses) (hsub : uses.Sublist more) :
    Refused more := by
  rcases h with hagain | ⟨hquiet, hverbose⟩
  · left
    intro hnodup
    exact hagain (hnodup.sublist ((hsub.map Use.choice).filter isSingle))
  · right
    constructor
    · obtain ⟨use, huse, hchoice⟩ := List.any_eq_true.1 hquiet
      exact List.any_eq_true.2 ⟨use, hsub.subset huse, hchoice⟩
    · have hle : verbosity uses ≤ verbosity more := hsub.countP_le
      omega

/-- What a setting that is not used on both sides says is said by the two sides together. -/
theorem or_of_nodup {uses more : List Use} (h : (singles (uses ++ more)).Nodup) {s : Setting}
    (hs : s ≠ .exclude) {β : Type} (f : Option (List Char) → Option β) (hf : f none = none) :
    (f (valueOf? s more)).or (f (valueOf? s uses)) =
      f ((valueOf? s uses).or (valueOf? s more)) := by
  have hsingle : isSingle (.setting s) = true := by simp [isSingle, hs]
  have hone := isUsed_of_nodup h hsingle
  rw [isUsed_setting, isUsed_setting, Option.isSome_eq_false_iff, Option.isSome_eq_false_iff,
    Option.isNone_iff_eq_none, Option.isNone_iff_eq_none] at hone
  rcases hone with hnone | hnone
  · simp [hnone, hf]
  · simp [hnone, hf]

/-- Uses on both sides ask for what they ask for together when the exclude lines are on one side, and
the requests for more output are, or are as many behind the command as are counted. -/
theorem of_summary_eq_iff {uses more : List Use} (h : (singles (uses ++ more)).Nodup)
    (c : Option Command) :
    Arguments.of (summary uses) c (summary more) = .of {} c (summary (uses ++ more)) ↔
      (excludeLines uses = [] ∨ excludeLines more = []) ∧
        (verbosity uses = 0 ∨ verbosity more = 0 ∨ 255 ≤ verbosity more) := by
  have hverbose : ((if verbosity more = 0 then min (verbosity uses) 255
        else min (verbosity more) 255) = if verbosity uses = 0 ∧ verbosity more = 0 then 0
        else min (verbosity uses + verbosity more) 255) ↔
      verbosity uses = 0 ∨ verbosity more = 0 ∨ 255 ≤ verbosity more := by
    split <;> split <;> omega
  have hexclude : ((if excludeLines more = [] then excludeLines uses else excludeLines more) =
        if excludeLines uses = [] ∧ excludeLines more = [] then []
        else excludeLines uses ++ excludeLines more) ↔
      excludeLines uses = [] ∨ excludeLines more = [] := by
    cases excludeLines more with
    | nil => simp
    | cons line lines => simp [List.self_eq_append_left]
  have htext {s : Setting} (hs : s ≠ .exclude) : (valueOf? s more).or (valueOf? s uses) =
      (valueOf? s uses).or (valueOf? s more) := or_of_nodup h hs id rfl
  have hpath {s : Setting} (hs : s ≠ .exclude) := or_of_nodup h hs (Option.map pathOf) rfl
  have hword {s : Setting} (hs : s ≠ .exclude) {α : Type} (words : List (String × α)) :=
    or_of_nodup h hs (·.bind (meaningOf? words)) rfl
  simp [Arguments.of, mergeLayers, summary, hverbose, hexclude, htext, hpath, hword, Bool.or_comm,
    and_comm]

/-- What the program makes of options on both sides of a command, and of the same options behind it. It
is the same exactly where each refusal is one of a single side, and where what is collected or counted
stands on one side. -/
theorem parse_sides {front behind : List (List Char)} {uses more : List Use}
    (hfront : Spells front uses) (hbehind : Spells behind more) (c : Command) :
    parse (front ++ c.word.toList :: behind) =
        (if Refused uses ∨ Refused more then .error .argumentConflict
        else .ok (.of (summary uses) (some c) (summary more))) ∧
      parse (c.word.toList :: (front ++ behind)) =
        (if Refused (uses ++ more) then .error .argumentConflict
        else .ok (.of {} (some c) (summary (uses ++ more)))) ∧
      (parse (front ++ c.word.toList :: behind) = parse (c.word.toList :: (front ++ behind)) ↔
        Refused uses ∨ Refused more ∨ ¬Refused (uses ++ more) ∧
          (excludeLines uses = [] ∨ excludeLines more = []) ∧
          (verbosity uses = 0 ∨ verbosity more = 0 ∨ 255 ≤ verbosity more)) := by
  have hsides := parse_of_spells hfront hbehind c
  have hbehindOnly : parse (c.word.toList :: (front ++ behind)) =
      if Refused (uses ++ more) then .error .argumentConflict
      else .ok (.of {} (some c) (summary (uses ++ more))) := by
    simpa [not_refused_nil, summary_nil] using parse_of_spells .nil (hfront.append hbehind) c
  refine ⟨hsides, hbehindOnly, ?_⟩
  rw [hsides, hbehindOnly]
  by_cases huses : Refused uses
  · simp [huses, huses.sublist (List.sublist_append_left uses more)]
  · by_cases hmore : Refused more
    · simp [hmore, hmore.sublist (List.sublist_append_right uses more)]
    · by_cases hboth : Refused (uses ++ more)
      · simp [huses, hmore, hboth]
      · have hnodup : (singles (uses ++ more)).Nodup := by
          by_contra hagain
          exact hboth (.inl hagain)
        simp [huses, hmore, hboth, of_summary_eq_iff hnodup]

/-- A path in front of the command, and a request for more output behind it. -/
theorem parse_sides_input_verbose :
    Spells ["--input".toList, "a".toList] [.setting .input ['a']] ∧
      Spells ["-v".toList] [.switch .verbose] ∧
      parse ["--input".toList, "a".toList, "list".toList, "-v".toList] =
        parse ["list".toList, "--input".toList, "a".toList, "-v".toList] := by
  have hinput : ("input", Choice.setting .input) ∈ longOptions := by decide
  have hverbose : ('v', Choice.switch .verbose) ∈ shortOptions := by decide
  have hfront : Spells ["--input".toList, "a".toList] [.setting .input ['a']] :=
    .apart hinput rfl (.inr (by decide)) .nil
  have hbehind : Spells ["-v".toList] [.switch .verbose] :=
    .shorts (.switch hverbose ⟨by decide, by decide⟩ .nil) .nil
  have hsame := (parse_sides hfront hbehind .list).2.2.2
    (.inr (.inr ⟨by decide, by decide, by decide⟩))
  exact ⟨hfront, hbehind, hsame⟩

/-- Options on both sides of a command are not taken together: exclude lines in front of it are lost,
and neither an option used on both sides nor requests for more and for less output are refused. -/
theorem exists_parse_sides_ne :
    parse ["--exclude".toList, "a".toList, "list".toList, "--exclude".toList, "b".toList] =
        parse ["list".toList, "--exclude".toList, "b".toList] ∧
      parse ["--exclude".toList, "a".toList, "list".toList, "--exclude".toList, "b".toList] ≠
        parse ["list".toList, "--exclude".toList, "a".toList, "--exclude".toList, "b".toList] ∧
      (parse ["-q".toList, "list".toList, "-v".toList]).isOk = true ∧
      parse ["list".toList, "-q".toList, "-v".toList] = .error .argumentConflict ∧
      (parse ["-ia".toList, "list".toList, "-ib".toList]).isOk = true ∧
      parse ["list".toList, "-ia".toList, "-ib".toList] = .error .argumentConflict := by
  decide

end AssetBake.CommandLine
