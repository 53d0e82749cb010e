import AssetBake.Key
import AssetBake.Proofs.Fallible

/-!
# Derived keys

Which relative paths have a key under each policy, and which key that is. Where the prefix and the
joiner are made of key characters every key is an identifier, and a path that has a key while bad
characters are refused has the same key when they are replaced.
-/

namespace AssetBake

open Text

/-! ### Normal forms -/

/-- A name has at least one byte, and so its text has a character. -/
theorem ne_nil_of_mem_plainTexts {components : List Component} {texts : List (List Char)}
    (h : plainTexts components = .ok texts) {text : List Char} (htext : text ∈ texts) :
    text ≠ [] := by
  fun_induction plainTexts components generalizing texts with
  | case1 =>
    cases h
    simp at htext
  | case2 rest ih => exact ih h htext
  | case3 => simp at h
  | case4 n rest value hvalue ih =>
    obtain ⟨more, hmore, rfl⟩ := Except.map_eq_ok_iff.1 h
    rcases List.mem_cons.1 htext with rfl | htext
    · intro hnil
      have hempty : value = "" := String.toList_eq_nil_iff.1 hnil
      have hbytes : n.bytes = [] := by rw [← Utf8.encode_of_decode? hvalue, hempty]; rfl
      exact n.plain.1 hbytes
    · exact ih hmore htext
  | case5 => simp at h

theorem isText_of_mem_plainTexts {components : List Component} {texts : List (List Char)}
    (h : plainTexts components = .ok texts) {n : Name} (hn : .name n ∈ components) :
    ∃ text, Utf8.decode? n.bytes = some text := by
  fun_induction plainTexts components generalizing texts with
  | case1 => simp at hn
  | case2 rest ih => exact ih h (by simpa using hn)
  | case3 => simp at h
  | case4 m rest text htext ih =>
    obtain ⟨more, hmore, _⟩ := Except.map_eq_ok_iff.1 h
    rcases List.mem_cons.1 hn with heq | hn
    · cases heq
      exact ⟨text, htext⟩
    · exact ih hmore hn
  | case5 => simp at h

theorem intercalate_ne_nil {α : Type} (glue : List α) {part : List α} (hpart : part ≠ [])
    (more : List (List α)) : glue.intercalate (part :: more) ≠ [] := by
  cases more with
  | nil => simpa using hpart
  | cons next more => simp [List.intercalate_cons_cons, hpart]

theorem Path.normalize_ne_nil {p : Path} {normalized : List Char}
    (h : p.normalize = .ok normalized) : normalized ≠ [] := by
  rw [normalize] at h
  split at h
  · simp at h
  · simp at h
  · next texts hne hplain =>
    cases h
    cases texts with
    | nil => exact absurd rfl hne
    | cons text more =>
      exact intercalate_ne_nil _ (ne_nil_of_mem_plainTexts hplain List.mem_cons_self) _

namespace KeyStyle

variable {style : KeyStyle} {relative : Path} {key normalized : List Char}

/-! ### The two policies -/

def withPolicy (style : KeyStyle) (policy : NamePolicy) : KeyStyle :=
  { style with policy := policy }

theorem derive_eq_ok_iff_of_reject (hpolicy : style.policy = .reject) :
    style.derive relative = .ok key ↔ ∃ normalized, relative.normalize = .ok normalized ∧
      key = style.joined normalized ∧ (∀ c ∈ key, isKeyChar c = true) ∧
        startsWithDigit key = false := by
  rw [derive, Except.bind_eq_ok_iff]
  refine exists_congr fun normalized => and_congr_right fun _ => ?_
  simp only [hpolicy]
  cases hfind : (style.joined normalized).find? fun c => !isKeyChar c with
  | some c =>
    simp only [reduceCtorEq, false_iff]
    rintro ⟨rfl, hall, _⟩
    simp [find?_not_eq_none_iff.2 hall] at hfind
  | none =>
    have hall := find?_not_eq_none_iff.1 hfind
    cases hdigit : startsWithDigit (style.joined normalized) with
    | true =>
      simp only [if_true, reduceCtorEq, false_iff]
      rintro ⟨rfl, _, hno⟩
      simp [hdigit] at hno
    | false =>
      simp only [Bool.false_eq_true, if_false, Except.ok.injEq]
      constructor
      · rintro rfl
        exact ⟨rfl, hall, hdigit⟩
      · rintro ⟨rfl, _⟩
        rfl

theorem derive_eq_ok_iff_of_sanitize (hpolicy : style.policy = .sanitize) :
    style.derive relative = .ok key ↔ ∃ normalized, relative.normalize = .ok normalized ∧
      key = style.sanitized (style.joined normalized) := by
  rw [derive, Except.bind_eq_ok_iff]
  simp only [hpolicy, Except.ok.injEq, eq_comm]

/-- A path without a normal form has no key, and for the same reason. -/
theorem derive_of_normalize_eq_error {fault : NameFault} (h : relative.normalize = .error fault) :
    style.derive relative = .error fault := by
  rw [derive, h, Except.error_bind]

/-- Where bad characters are replaced, only a path without a normal form has no key. -/
theorem derive_eq_error_iff_of_sanitize (hpolicy : style.policy = .sanitize) {fault : NameFault} :
    style.derive relative = .error fault ↔ relative.normalize = .error fault := by
  rw [derive, Except.bind_eq_error_iff]
  simp [hpolicy]

/-! ### From refusing to replacing -/

theorem flatMap_eq_self {s : List Char} (h : ∀ c ∈ s, isKeyChar c = true) (joiner : List Char) :
    (s.flatMap fun c => if isKeyChar c then [c] else joiner) = s := by
  induction s with
  | nil => rfl
  | cons c s ih =>
    obtain ⟨hc, hs⟩ := List.forall_mem_cons.1 h
    rw [List.flatMap_cons, ih hs, if_pos hc, List.singleton_append]

/-- Nothing in a key that could stand as it is gets replaced. -/
theorem sanitized_eq_self (hkey : ∀ c ∈ key, isKeyChar c = true)
    (hdigit : startsWithDigit key = false) : style.sanitized key = key := by
  simp [sanitized, flatMap_eq_self hkey, hdigit]

theorem derive_withPolicy_sanitize (hpolicy : style.policy = .reject)
    (h : style.derive relative = .ok key) :
    (style.withPolicy .sanitize).derive relative = .ok key := by
  obtain ⟨normalized, hnormalized, hjoined, hkey, hdigit⟩ := (derive_eq_ok_iff_of_reject hpolicy).1 h
  refine (derive_eq_ok_iff_of_sanitize rfl).2 ⟨normalized, hnormalized, ?_⟩
  have hsame : (style.withPolicy .sanitize).joined normalized = key := hjoined.symm
  rw [hsame, sanitized_eq_self hkey hdigit]

/-! ### Styles made of key characters -/

/-- What settings need for their keys: a prefix and a joiner of key characters, and some joiner. -/
structure IsSound (style : KeyStyle) : Prop where
  lead : ∀ c ∈ style.lead, isKeyChar c = true
  joiner_ne_nil : style.joiner ≠ []
  joiner : ∀ c ∈ style.joiner, isKeyChar c = true

/-- The characters that part the names of a path and the stretches of a name. -/
def isSeparator (c : Char) : Bool :=
  c == '/' || c == '.'

/-- A text behind the prefix, with the joiner for each character that does not stay. -/
def spelled (style : KeyStyle) (stays : Char → Bool) (text : List Char) : List Char :=
  style.lead ++ text.flatMap fun c => if stays c then [c] else style.joiner

theorem joined_eq_spelled (style : KeyStyle) (text : List Char) :
    style.joined text = style.spelled (fun c => !isSeparator c) text := by
  rw [joined, spelled]
  congr 2
  funext c
  by_cases hslash : c = '/'
  · simp [isSeparator, hslash]
  · by_cases hdot : c = '.' <;> simp [isSeparator, hslash, hdot]

theorem isKeyChar_of_isSeparator {c : Char} (h : isSeparator c = true) : isKeyChar c = false := by
  rw [isSeparator, Bool.or_eq_true, beq_iff_eq, beq_iff_eq] at h
  rcases h with rfl | rfl <;> decide

namespace IsSound

variable (hstyle : style.IsSound)
include hstyle

theorem spelled_ne_nil (stays : Char → Bool) {text : List Char} (htext : text ≠ []) :
    style.spelled stays text ≠ [] := by
  obtain ⟨c, rest, rfl⟩ := List.exists_cons_of_ne_nil htext
  intro hnil
  rw [spelled, List.flatMap_cons] at hnil
  have hfirst := (List.append_eq_nil_iff.1 (List.append_eq_nil_iff.1 hnil).2).1
  split at hfirst
  · simp at hfirst
  · exact hstyle.joiner_ne_nil hfirst

/-- A spelled text is made of key characters if what stays of it is. -/
theorem forall_mem_spelled_iff (stays : Char → Bool) (text : List Char) :
    (∀ c ∈ style.spelled stays text, isKeyChar c = true) ↔
      ∀ c ∈ text, stays c = true → isKeyChar c = true := by
  simp only [spelled, List.mem_append, List.mem_flatMap]
  constructor
  · intro hall c hc hstays
    exact hall c (.inr ⟨c, hc, by simp [hstays]⟩)
  · rintro htext c (hlead | ⟨d, hd, hc⟩)
    · exact hstyle.lead c hlead
    · split at hc
      · next hstays =>
        rw [List.mem_singleton.1 hc]
        exact htext d hd hstays
      · exact hstyle.joiner c hc

/-- Replacing the separators first and then all else that is no key character replaces it all. -/
theorem flatMap_joined (text : List Char) :
    ((style.joined text).flatMap fun c => if isKeyChar c then [c] else style.joiner) =
      style.spelled isKeyChar text := by
  rw [joined_eq_spelled, spelled, spelled, List.flatMap_append, flatMap_eq_self hstyle.lead,
    List.flatMap_assoc]
  congr 2
  funext c
  cases hseparator : isSeparator c with
  | true => simp [flatMap_eq_self hstyle.joiner, isKeyChar_of_isSeparator hseparator]
  | false => simp

theorem sanitized_joined (text : List Char) :
    style.sanitized (style.joined text) =
      if startsWithDigit (style.spelled isKeyChar text) then '_' :: style.spelled isKeyChar text
      else style.spelled isKeyChar text := by
  rw [sanitized, hstyle.flatMap_joined]

theorem derive_eq_ok_iff_of_reject (hpolicy : style.policy = .reject) :
    style.derive relative = .ok key ↔ ∃ normalized, relative.normalize = .ok normalized ∧
      (∀ c ∈ normalized, isSeparator c = true ∨ isKeyChar c = true) ∧
      key = style.spelled (fun c => !isSeparator c) normalized ∧ startsWithDigit key = false := by
  rw [KeyStyle.derive_eq_ok_iff_of_reject hpolicy]
  refine exists_congr fun normalized => and_congr_right fun _ => ?_
  have hstays (c : Char) : (!isSeparator c) = true → isKeyChar c = true ↔
      isSeparator c = true ∨ isKeyChar c = true := by
    cases isSeparator c <;> simp
  rw [joined_eq_spelled, and_left_comm]
  refine and_congr_left fun hkey => ?_
  rw [hkey.1, hstyle.forall_mem_spelled_iff]
  simp only [hstays]

end IsSound

/-! ### Keys are identifiers -/

theorem isIdentifier_of_ne_nil (hne : key ≠ []) (hkey : ∀ c ∈ key, isKeyChar c = true)
    (hdigit : startsWithDigit key = false) : isIdentifier key = true := by
  simpa [isIdentifier, hdigit, hne] using hkey

theorem isIdentifier_underscore (hkey : ∀ c ∈ key, isKeyChar c = true) :
    isIdentifier ('_' :: key) = true :=
  isIdentifier_of_ne_nil (List.cons_ne_nil _ _) (List.forall_mem_cons.2 ⟨by decide, hkey⟩)
    (by simp [startsWithDigit])

theorem IsSound.isIdentifier_of_derive (hstyle : style.IsSound)
    (h : style.derive relative = .ok key) : isIdentifier key = true := by
  cases hpolicy : style.policy with
  | reject =>
    obtain ⟨normalized, hnormalized, rfl, hkey, hdigit⟩ :=
      (KeyStyle.derive_eq_ok_iff_of_reject hpolicy).1 h
    refine isIdentifier_of_ne_nil ?_ hkey hdigit
    rw [joined_eq_spelled]
    exact hstyle.spelled_ne_nil _ (Path.normalize_ne_nil hnormalized)
  | sanitize =>
    obtain ⟨normalized, hnormalized, rfl⟩ := (derive_eq_ok_iff_of_sanitize hpolicy).1 h
    have hall : ∀ c ∈ style.spelled isKeyChar normalized, isKeyChar c = true :=
      (hstyle.forall_mem_spelled_iff _ _).2 fun _ _ => id
    rw [hstyle.sanitized_joined]
    split
    · exact isIdentifier_underscore hall
    · next hdigit =>
      exact isIdentifier_of_ne_nil
        (hstyle.spelled_ne_nil _ (Path.normalize_ne_nil hnormalized)) hall (by simpa using hdigit)

/-- Where bad characters are refused a path has a key just if it has a normal form of separators and
key characters, and the prefix with that form, its separators replaced by the joiner, begins with no
digit; that is the key. Where they are replaced every path with a normal form has a key, in which the
joiner stands for whatever is no key character, and an underscore goes before a digit in front. All
keys are identifiers. -/
theorem derive_exact (hstyle : style.IsSound) (relative : Path) :
    (style.policy = .reject → ∀ key, style.derive relative = .ok key ↔
      ∃ normalized, relative.normalize = .ok normalized ∧
        (∀ c ∈ normalized, isSeparator c = true ∨ isKeyChar c = true) ∧
        key = style.spelled (fun c => !isSeparator c) normalized ∧ startsWithDigit key = false) ∧
    (style.policy = .sanitize → ∀ key, style.derive relative = .ok key ↔
      ∃ normalized, relative.normalize = .ok normalized ∧
        key = if startsWithDigit (style.spelled isKeyChar normalized) then
          '_' :: style.spelled isKeyChar normalized else style.spelled isKeyChar normalized) ∧
    ∀ key, style.derive relative = .ok key → isIdentifier key = true := by
  refine ⟨fun hpolicy key => hstyle.derive_eq_ok_iff_of_reject hpolicy, fun hpolicy key => ?_,
    fun key => hstyle.isIdentifier_of_derive⟩
  simp only [derive_eq_ok_iff_of_sanitize hpolicy, hstyle.sanitized_joined]

/-- A name of nothing but dots, with a digit for the joiner and no prefix, has a key all the same. -/
theorem derive_exact_dots :
    IsSound ⟨[], ['7'], .sanitize⟩ ∧
    derive ⟨[], ['7'], .sanitize⟩ (.ofString "...") = .ok "_777".toList ∧
    isIdentifier "_777".toList = true := by
  have hstyle : IsSound ⟨[], ['7'], .sanitize⟩ :=
    ⟨by simp, by simp, List.forall_mem_singleton.2 (by decide)⟩
  have hnormal : (Path.ofString "...").normalize = .ok "...".toList := rfl
  obtain ⟨_, hkey, hidentifier⟩ := derive_exact hstyle (.ofString "...")
  have hderive : derive ⟨[], ['7'], .sanitize⟩ (.ofString "...") = .ok "_777".toList :=
    (hkey rfl _).2 ⟨_, hnormal, by decide⟩
  exact ⟨hstyle, hderive, hidentifier _ hderive⟩

end KeyStyle

end AssetBake
