import AssetBake.Proofs.Key.Derivation
import AssetBake.Proofs.Text.Pieces
import Mathlib

/-!
# Keys that tell paths apart

A key does not say where the names of a path end, since a joiner may be part of a name. Where no name has
a dot or any character of the joiner, a joiner in the key stands for a slash and nothing else does, so
that two paths with the same key are the same.
-/

namespace AssetBake

open Text

namespace KeyStyle

variable {style : KeyStyle} {p q : Path} {key text text' : List Char}

/-- No part of a normal form has a dot, or a character that the joiner has too. -/
def IsPlain (style : KeyStyle) (normalized : List Char) : Prop :=
  ∀ part ∈ normalized.splitOn '/', ∀ c ∈ part, c ≠ '.' ∧ c ∉ style.joiner

instance : Decidable (style.IsPlain text) :=
  decidable_of_iff
    ((text.splitOn '/').all fun part => part.all fun c => c != '.' && !style.joiner.contains c)
    (by simp [IsPlain])

theorem IsPlain.eq_slash_or (h : style.IsPlain text) {c : Char} (hc : c ∈ text) :
    c = '/' ∨ c ≠ '.' ∧ c ∉ style.joiner := by
  have hjoined : ['/'].intercalate (text.splitOn '/') = text := List.intercalate_splitOn '/'
  rw [← hjoined] at hc
  rcases mem_intercalate hc with hslash | ⟨part, hpart, hmem⟩
  · exact .inl (List.mem_singleton.1 hslash)
  · exact .inr (h part hpart c hmem)

/-- What stands in a key for a character of a normal form. -/
def spelling (style : KeyStyle) (c : Char) : List Char :=
  if c = '/' ∨ c = '.' then style.joiner else [c]

theorem spelling_slash (style : KeyStyle) : style.spelling '/' = style.joiner := by
  simp [spelling]

theorem spelling_of_plain {c : Char} (hslash : c ≠ '/') (hdot : c ≠ '.') :
    style.spelling c = [c] := by
  simp [spelling, hslash, hdot]

theorem spelling_ne_nil (hjoiner : style.joiner ≠ []) (c : Char) : style.spelling c ≠ [] := by
  unfold spelling
  split
  · exact hjoiner
  · simp

/-- A joiner is no beginning of a text that goes on with a character it does not have. -/
theorem joiner_append_ne (hjoiner : style.joiner ≠ []) {c : Char} (hc : c ∉ style.joiner)
    (rest rest' : List Char) : style.joiner ++ rest ≠ c :: rest' := by
  obtain ⟨first, more, hfirst⟩ := List.exists_cons_of_ne_nil hjoiner
  rw [hfirst] at hc ⊢
  intro h
  have hsame : first = c := (List.cons.inj h).1
  exact hc (by simp [hsame])

/-- The first characters of two texts are the same if the spelled texts are, and so is the rest. -/
theorem eq_of_spelling_append_eq (hjoiner : style.joiner ≠ []) {c d : Char} {rest rest' : List Char}
    (hc : c = '/' ∨ c ≠ '.' ∧ c ∉ style.joiner) (hd : d = '/' ∨ d ≠ '.' ∧ d ∉ style.joiner)
    (h : style.spelling c ++ rest = style.spelling d ++ rest') : c = d ∧ rest = rest' := by
  by_cases hcslash : c = '/'
  · subst hcslash
    rw [spelling_slash] at h
    by_cases hdslash : d = '/'
    · subst hdslash
      rw [spelling_slash] at h
      exact ⟨rfl, List.append_cancel_left h⟩
    · have hd := hd.resolve_left hdslash
      rw [spelling_of_plain hdslash hd.1] at h
      exact absurd h (joiner_append_ne hjoiner hd.2 _ _)
  · have hc := hc.resolve_left hcslash
    rw [spelling_of_plain hcslash hc.1] at h
    by_cases hdslash : d = '/'
    · subst hdslash
      rw [spelling_slash] at h
      exact absurd h.symm (joiner_append_ne hjoiner hc.2 _ _)
    · have hd := hd.resolve_left hdslash
      rw [spelling_of_plain hdslash hd.1] at h
      exact List.cons.inj h

theorem eq_of_flatMap_spelling_eq (hjoiner : style.joiner ≠ [])
    (htext : ∀ c ∈ text, c = '/' ∨ c ≠ '.' ∧ c ∉ style.joiner)
    (htext' : ∀ c ∈ text', c = '/' ∨ c ≠ '.' ∧ c ∉ style.joiner)
    (h : text.flatMap style.spelling = text'.flatMap style.spelling) : text = text' := by
  induction text generalizing text' with
  | nil =>
    cases text' with
    | nil => rfl
    | cons d rest' =>
      rw [List.flatMap_cons, List.flatMap_nil] at h
      exact absurd (List.append_eq_nil_iff.1 h.symm).1 (spelling_ne_nil hjoiner d)
  | cons c rest ih =>
    cases text' with
    | nil =>
      rw [List.flatMap_cons, List.flatMap_nil] at h
      exact absurd (List.append_eq_nil_iff.1 h).1 (spelling_ne_nil hjoiner c)
    | cons d rest' =>
      obtain ⟨hc, hrest⟩ := List.forall_mem_cons.1 htext
      obtain ⟨hd, hrest'⟩ := List.forall_mem_cons.1 htext'
      rw [List.flatMap_cons, List.flatMap_cons] at h
      obtain ⟨rfl, hmore⟩ := eq_of_spelling_append_eq hjoiner hc hd h
      rw [ih hrest hrest' hmore]

/-- A plain normal form can be told from the key that it would have. -/
theorem eq_of_joined_eq (hjoiner : style.joiner ≠ []) (htext : style.IsPlain text)
    (htext' : style.IsPlain text') (h : style.joined text = style.joined text') : text = text' := by
  apply eq_of_flatMap_spelling_eq hjoiner
  · exact fun c hc => htext.eq_slash_or hc
  · exact fun c hc => htext'.eq_slash_or hc
  · exact List.append_cancel_left h

/-- Two paths with the same key are the same path if the parts of both are plain. That these parts are
made of key characters does not have to be asked for, since bad characters are refused. -/
theorem normalize_eq_of_derive_eq (hpolicy : style.policy = .reject) (hjoiner : style.joiner ≠ [])
    (hp : p.normalize = .ok text) (hq : q.normalize = .ok text') (htext : style.IsPlain text)
    (htext' : style.IsPlain text') (hpkey : style.derive p = .ok key)
    (hqkey : style.derive q = .ok key) : text = text' := by
  obtain ⟨normalized, hnormalized, hjoined, _⟩ := (derive_eq_ok_iff_of_reject hpolicy).1 hpkey
  obtain ⟨normalized', hnormalized', hjoined', _⟩ := (derive_eq_ok_iff_of_reject hpolicy).1 hqkey
  cases hp.symm.trans hnormalized
  cases hq.symm.trans hnormalized'
  exact eq_of_joined_eq hjoiner htext htext' (hjoined.symm.trans hjoined')

theorem normalize_eq_of_derive_eq_io :
    KeyStyle.standard.policy = .reject ∧ KeyStyle.standard.joiner ≠ [] ∧ ∃ text text',
      (Path.ofString "core/io").normalize = .ok text ∧
      (Path.ofString "./core//io").normalize = .ok text' ∧
      KeyStyle.standard.IsPlain text ∧ KeyStyle.standard.IsPlain text' ∧
      KeyStyle.standard.derive (.ofString "core/io") = .ok "std_core_io".toList ∧
      KeyStyle.standard.derive (.ofString "./core//io") = .ok "std_core_io".toList ∧
      text = text' := by
  have hjoiner : KeyStyle.standard.joiner ≠ [] := by decide
  have hp : (Path.ofString "core/io").normalize = .ok "core/io".toList := by cbv
  have hq : (Path.ofString "./core//io").normalize = .ok "core/io".toList := by cbv
  have hplain : KeyStyle.standard.IsPlain "core/io".toList := by decide
  have hpkey : KeyStyle.standard.derive (.ofString "core/io") = .ok "std_core_io".toList := by cbv
  have hqkey : KeyStyle.standard.derive (.ofString "./core//io") = .ok "std_core_io".toList := by cbv
  exact ⟨rfl, hjoiner, _, _, hp, hq, hplain, hplain, hpkey, hqkey,
    normalize_eq_of_derive_eq rfl hjoiner hp hq hplain hplain hpkey hqkey⟩

/-- A name that only does not have the whole joiner in it is not enough. -/
example : derive ⟨[], ['_', '_'], .reject⟩ (.ofString "a_/b") =
    derive ⟨[], ['_', '_'], .reject⟩ (.ofString "a/_b") := by
  cbv

end KeyStyle

end AssetBake
