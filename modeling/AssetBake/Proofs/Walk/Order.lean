import AssetBake.Proofs.Walk.Visiting
import Mathlib

/-!
# The order of a walk

If the names on its ways are texts, the files of a walk stand in the order of the bytes of their
relative paths, and none stands twice. The ways alone decide the list then, in whatever order the
directories have their entries.
-/

namespace AssetBake

/-- All names on a way are texts. -/
def AreTexts (way : List Name) : Prop :=
  ∀ n ∈ way, ∃ text, Text.Utf8.decode? n.bytes = some text

namespace Walk

variable {t t' : FileTree} {rules : Rules} {place place' : Location} {sources sources' : List Source}
  {ways ways' : List (List Name)} {way way' : List Name}

/-- The bytes of one relative path go before those of another. -/
def Before (a b : Source) : Prop :=
  List.Lex (· < ·) a.relative.bytes b.relative.bytes

instance : Std.Asymm Before where
  asymm _ _ h := (inferInstance : Std.Asymm (List.Lex fun a b : UInt8 => a < b)).asymm _ _ h

theorem Rules.source_injective : Function.Injective rules.source := fun _ _ h =>
  Path.ofNames_injective (Source.mk.inj h).2

/-- The order of the texts is that of their bytes. -/
theorem before_of_inOrder (hway : AreTexts way) (hway' : AreTexts way') (hne : way ≠ way')
    (h : inOrder (rules.source way) (rules.source way') = true) :
    Before (rules.source way) (rules.source way') := by
  have hle : (Path.ofNames way).componentText ≤ (Path.ofNames way').componentText :=
    of_decide_eq_true h
  have hlt := lt_of_le_of_ne hle fun heq => hne (Path.eq_of_componentText_eq hway hway' heq)
  have hbytes := Text.Utf8.lex_encode hlt
  rwa [Path.encode_componentText_ofNames hway, Path.encode_componentText_ofNames hway'] at hbytes

theorem Walked.mem_iff (h : Walked t rules place sources ways) {s : Source} :
    s ∈ sources ↔ ∃ way ∈ ways, s = rules.source way := by
  rw [h.perm.mem_iff, List.mem_map]
  simp only [eq_comm]

theorem Walked.mem_ways_iff (h : Walked t rules place sources ways) :
    way ∈ ways ↔ ∃ n, Meets t rules [] ⟨place, []⟩ n way none := by
  rw [h.covers.mem_iff]
  apply exists_congr
  intro n
  apply and_iff_right_of_imp
  intro hmeets
  exact FileTree.mem_names_iff.2 hmeets.exists_find?

theorem Walked.not_meets (h : Walked t rules place sources ways) (n : Name) (way : List Name)
    (failure : Failure) : ¬Meets t rules [] ⟨place, []⟩ n way (some failure) := fun hmeets =>
  h.covers.clear n (FileTree.mem_names_iff.2 hmeets.exists_find?) way failure hmeets

/-- No file of a walk stands twice. -/
theorem Walked.nodup (h : Walked t rules place sources ways) : sources.Nodup :=
  h.perm.nodup_iff.2 (h.covers.nodup.map Rules.source_injective)

theorem Walked.before (h : Walked t rules place sources ways) (htexts : ∀ way ∈ ways, AreTexts way) :
    sources.Pairwise Before := by
  apply (h.nodup.and h.sorted).imp_of_mem
  intro a b ha hb hab
  obtain ⟨way, hway, rfl⟩ := h.mem_iff.1 ha
  obtain ⟨way', hway', rfl⟩ := h.mem_iff.1 hb
  exact before_of_inOrder (htexts way hway) (htexts way' hway') (fun heq => hab.1 (heq ▸ rfl)) hab.2

/-- Walks that go the same ways give the same list. -/
theorem Walked.eq_of_ways (h : Walked t rules place sources ways)
    (h' : Walked t' rules place' sources' ways') (hways : ∀ way, way ∈ ways ↔ way ∈ ways')
    (htexts : ∀ way ∈ ways, AreTexts way) : sources = sources' := by
  have hbefore' := h'.before fun way hway => htexts way ((hways way).2 hway)
  apply (h.before htexts).eq_of_mem_iff hbefore'
  intro s
  rw [h.mem_iff, h'.mem_iff]
  exact exists_congr fun way => and_congr_left fun _ => hways way

end Walk

end AssetBake
