import AssetBake.CommandLine.Parser
import AssetBake.Proofs.Fallible

/-!
# Switches that stay on

What is turned on stays on, so that a run whose arguments were read and hold the argument `--json` has
been asked for events.
-/

namespace AssetBake.CommandLine

def jsonArgument : List Char := "--json".toList

namespace Given

variable {given next : Given}

theorem json_put {s : Setting} {value : List Char} (h : given.put s value = .ok next) :
    next.json = given.json := by
  cases s with
  | exclude =>
    cases h
    rfl
  | _ =>
    obtain ⟨_, _, h⟩ := Except.bind_eq_ok_iff.1 h
    cases h
    rfl

theorem json_settle (h : given.settle = .ok next) : next.json = given.json := by
  rw [settle] at h
  split at h
  · cases h
    rfl
  · cases h
  · have hput := json_put h
    exact hput

/-- Turning something on turns nothing off, and turns on events if they are asked for. -/
theorem json_turnOn {s : Switch} (h : given.turnOn s = .ok next) :
    next.json = (given.json || decide (s = .json)) := by
  obtain ⟨settled, hsettled, h⟩ := Except.bind_eq_ok_iff.1 h
  rw [← json_settle hsettled]
  cases s with
  | json | quiet | followLinks =>
    simp only at h
    split at h
    · cases h
    · cases h
      simp
  | verbose =>
    cases h
    simp
  | help | version => cases h

theorem json_begin {s : Setting} {attached : Option (List Char)}
    (h : given.begin s attached = .ok next) : next.json = given.json := by
  obtain ⟨settled, hsettled, h⟩ := Except.bind_eq_ok_iff.1 h
  rw [← json_settle hsettled]
  cases attached with
  | none =>
    cases h
    rfl
  | some value => exact json_put h

theorem json_readLong {behindCommand : Bool} {argument : List Char}
    (h : given.readLong behindCommand argument = .ok next) :
    (given.json = true ∨ argument = "json".toList) → next.json = true := by
  rintro (hjson | rfl)
  · rw [readLong] at h
    split at h
    · cases h
    · simpa [json_begin h] using hjson
    · split at h
      · cases h
      · simp [json_turnOn h, hjson]
  · have hturned : given.turnOn .json = .ok next := by
      cases behindCommand <;> exact h
    simp [json_turnOn hturned]

theorem json_readShorts {behindCommand : Bool} {shorts : List Char}
    (h : given.readShorts behindCommand shorts = .ok next) :
    given.json = true → next.json = true := by
  induction shorts generalizing given with
  | nil =>
    cases h
    exact id
  | cons c shorts ih =>
    rw [readShorts] at h
    split at h
    · cases h
    · obtain ⟨turned, hturned, h⟩ := Except.bind_eq_ok_iff.1 h
      intro hjson
      exact ih h (by simp [json_turnOn hturned, hjson])
    · intro hjson
      split at h
      · rwa [json_begin h]
      · rwa [json_begin h]
      · rwa [json_begin h]

theorem json_finish (h : given.finish = .ok next) : next.json = given.json := by
  obtain ⟨settled, hsettled, h⟩ := Except.bind_eq_ok_iff.1 h
  rw [← json_settle hsettled]
  simp only at h
  split at h
  · cases h
  · cases h
    rfl

end Given

/-- Reading comes past the argument, or leaves it for the other side of the command. -/
theorem json_readStretch {behindCommand : Bool} {given : Given} {arguments : List (List Char)}
    {stretch : Stretch} (h : readStretch behindCommand given arguments = .ok stretch)
    (hjson : given.json = true ∨ jsonArgument ∈ arguments) :
    stretch.given.json = true ∨
      ∃ command rest, stretch.next = some (command, rest) ∧ jsonArgument ∈ rest := by
  fun_induction readStretch behindCommand given arguments with
  | case1 given =>
    cases h
    exact .inl (hjson.resolve_right (by simp))
  | case2 given argument rest command? command hcommand =>
    cases h
    have hword : jsonArgument ≠ argument := by
      rintro rfl
      have hnone : command? = none := by
        simp only [command?]
        split <;> rfl
      simp [hnone] at hcommand
    simpa [hword] using hjson
  | case4 given =>
    cases h
    exact .inl (hjson.resolve_right (by decide))
  | case6 given rest long _ _ _ _ ih =>
    obtain ⟨next, hnext, h⟩ := Except.bind_eq_ok_iff.1 h
    refine ih next h ?_
    rcases hjson with hjson | hjson
    · exact .inl (Given.json_readLong hnext (.inl hjson))
    · rcases List.mem_cons.1 hjson with hlong | hrest
      · left
        have hname : "json".toList = long := by simpa [jsonArgument] using hlong
        exact Given.json_readLong hnext (.inr hname.symm)
      · exact .inr hrest
  | case7 given rest c shorts _ hc _ _ _ ih =>
    obtain ⟨next, hnext, h⟩ := Except.bind_eq_ok_iff.1 h
    refine ih next h ?_
    rcases hjson with hjson | hjson
    · exact .inl (Given.json_readShorts hnext hjson)
    · rcases List.mem_cons.1 hjson with hshorts | hrest
      · have hhyphen : c = '-' := by
          simp [jsonArgument] at hshorts
          exact hshorts.1.symm
        exact absurd hhyphen hc
      · exact .inr hrest
  | case8 given value rest command? _ _ _ _ hlong _ ih =>
    refine ih h ?_
    rcases hjson with hjson | hjson
    · exact .inl hjson
    · rcases List.mem_cons.1 hjson with hvalue | hrest
      · exact absurd hvalue.symm (hlong "json".toList)
      · exact .inr hrest
  | case3 | case5 | case9 => cases h

/-- Behind a command there is no other one. -/
theorem next_readStretch {given : Given} {arguments : List (List Char)} {stretch : Stretch}
    (h : readStretch true given arguments = .ok stretch) : stretch.next = none := by
  generalize hside : true = behindCommand at h
  fun_induction readStretch behindCommand given arguments with
  | case1 | case4 =>
    cases h
    rfl
  | case2 given argument rest command? command hcommand =>
    simp [command?, ← hside] at hcommand
  | case6 _ _ _ _ _ _ _ ih | case7 _ _ _ _ _ _ _ _ _ ih =>
    obtain ⟨next, _, h⟩ := Except.bind_eq_ok_iff.1 h
    exact ih next h
  | case8 _ _ _ _ _ _ _ _ _ _ ih => exact ih h
  | case3 | case5 | case9 => cases h

/-- A run whose arguments were read and hold the argument reports events. -/
theorem json_parse {arguments : List (List Char)} {parsed : Arguments}
    (h : parse arguments = .ok parsed) (hjson : jsonArgument ∈ arguments) :
    parsed.json = true := by
  obtain ⟨front, hfront, h⟩ := Except.bind_eq_ok_iff.1 h
  have hfrontJson := json_readStretch hfront (.inr hjson)
  split at h
  · rename_i hnext
    obtain ⟨given, hgiven, h⟩ := Except.bind_eq_ok_iff.1 h
    cases h
    rcases hfrontJson with hfrontJson | ⟨_, _, hsome, _⟩
    · simp [Arguments.of, Given.json_finish hgiven, hfrontJson]
    · simp [hnext] at hsome
  · rename_i command rest hnext
    obtain ⟨stretch, hstretch, h⟩ := Except.bind_eq_ok_iff.1 h
    obtain ⟨behind, hbehind, h⟩ := Except.bind_eq_ok_iff.1 h
    obtain ⟨given, hgiven, h⟩ := Except.bind_eq_ok_iff.1 h
    cases h
    rcases hfrontJson with hfrontJson | ⟨_, _, hsome, hrest⟩
    · simp [Arguments.of, Given.json_finish hgiven, hfrontJson]
    · obtain ⟨rfl, rfl⟩ : command = _ ∧ rest = _ := by simpa [hnext] using hsome
      have hbehindJson := json_readStretch hstretch (.inr hrest)
      rw [next_readStretch hstretch] at hbehindJson
      have hstretchJson : stretch.given.json = true := by simpa using hbehindJson
      simp [Arguments.of, Given.json_finish hbehind, hstretchJson]

end AssetBake.CommandLine
