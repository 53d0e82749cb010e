import AssetBake.Proofs.Diff.Hunks
import AssetBake.Proofs.Diff.Reader
import Mathlib

/-!
# Diffs as patches

The hunks of a diff lie in order in both texts and show their lines there; outside of them the texts are
the same, so that putting the new lines of every hunk in the place of its old ones turns the old text into
the new one. The header of a hunk states where it lies, unless the hunk begins at the top of both texts, or
ends at the bottom of both, with lines that only the other text has.
-/

namespace AssetBake.Diff

open Text

/-! ### Places of hunks -/

def LineRange.last (range : LineRange) : Nat :=
  range.first + range.length

def LineRange.of (range : LineRange) (lines : List (List Char)) : List (List Char) :=
  (lines.drop range.first).take range.length

/-- Where a hunk lies in both texts. -/
structure Place where
  old : LineRange
  new : LineRange

/-- The lines that are not signed so: those of one text. -/
def textsWithout (sign : Sign) (lines : List (Sign × List Char)) : List (List Char) :=
  (lines.filter (·.1 ≠ sign)).map (·.2)

/-- Before the first line that both texts have stand lines, all of one text. -/
def OpensWith (sign : Sign) (lines : List (Sign × List Char)) : Prop :=
  lines.takeWhile (·.1 ≠ .kept) ≠ [] ∧ ∀ line ∈ lines.takeWhile (·.1 ≠ .kept), line.1 = sign

/-- A hunk at one end of both texts, with lines of one text alone at that end. -/
def Hunk.IsLoose (sign : Sign) (oldLines newLines : List (List Char)) (hunk : Hunk) (place : Place) :
    Prop :=
  (place.old.first = 0 ∧ place.new.first = 0 ∧ OpensWith sign hunk.lines) ∨
    (place.old.last = oldLines.length ∧ place.new.last = newLines.length ∧
      OpensWith sign hunk.lines.reverse)

/-- The hunk shows the lines at a place in both texts, and states the place where it is not loose. -/
structure Hunk.ShowsAt (oldLines newLines : List (List Char)) (hunk : Hunk) (place : Place) : Prop where
  old_lines : textsWithout .added hunk.lines = (place.old.of oldLines).map withoutNewline
  new_lines : textsWithout .removed hunk.lines = (place.new.of newLines).map withoutNewline
  old_range : ¬hunk.IsLoose .added oldLines newLines place → hunk.old = place.old
  new_range : ¬hunk.IsLoose .removed oldLines newLines place → hunk.new = place.new

/-- The places follow each other in both texts, and the texts are the same between them. -/
def InOrder (oldLines newLines : List (List Char)) : Nat → Nat → List Place → Prop
  | o, n, [] => oldLines.drop o = newLines.drop n
  | o, n, place :: more =>
    o ≤ place.old.first ∧ n ≤ place.new.first ∧
      place.old.last ≤ oldLines.length ∧ place.new.last ≤ newLines.length ∧
      (LineRange.mk o (place.old.first - o)).of oldLines =
        (LineRange.mk n (place.new.first - n)).of newLines ∧
      InOrder oldLines newLines place.old.last place.new.last more

/-- The old lines from a position on, with the new lines of every place instead of its old ones. -/
def replaced (oldLines newLines : List (List Char)) : Nat → List Place → List (List Char)
  | o, [] => oldLines.drop o
  | o, place :: more =>
    (LineRange.mk o (place.old.first - o)).of oldLines ++ place.new.of newLines ++
      replaced oldLines newLines place.old.last more

theorem of_append_drop {lines : List (List Char)} {first last : Nat} (h : first ≤ last) :
    (LineRange.mk first (last - first)).of lines ++ lines.drop last = lines.drop first := by
  have hdrop := List.take_append_drop (last - first) (lines.drop first)
  rwa [List.drop_drop, Nat.add_sub_cancel' h] at hdrop

theorem InOrder.replaced_eq {oldLines newLines : List (List Char)} {o n : Nat} {places : List Place}
    (h : InOrder oldLines newLines o n places) :
    replaced oldLines newLines o places = newLines.drop n := by
  induction places generalizing o n with
  | nil => exact h
  | cons place more ih =>
    obtain ⟨-, hnew, -, -, hgap, hmore⟩ := h
    have hplace : place.new.of newLines ++ newLines.drop place.new.last =
        newLines.drop place.new.first := by
      rw [LineRange.of, LineRange.last, ← List.drop_drop, List.take_append_drop]
    rw [replaced, ih hmore, hgap, List.append_assoc, hplace, of_append_drop hnew]

/-! ### Lines of hunks -/

section

variable {old new : List (List Char)} {o n o' n' : Nat} {hunk : List Edit}

theorem slice_toArray (lines : List (List Char)) (first length : Nat) :
    slice lines.toArray first (first + length) = (lines.drop first).take length := by
  rw [slice_eq, Nat.add_sub_cancel_left]

theorem Shared.take_drop_eq {length : Nat} (h : Shared old new o n length) :
    (old.drop o).take length = (new.drop n).take length := by
  refine List.ext_getElem? fun i => ?_
  by_cases hi : i < length
  · rw [List.getElem?_take_of_lt hi, List.getElem?_take_of_lt hi, List.getElem?_drop,
      List.getElem?_drop, h.same i hi]
  · rw [List.getElem?_take_eq_none (Nat.le_of_not_lt hi), List.getElem?_take_eq_none (Nat.le_of_not_lt hi)]

/-- A range may be cut in two. -/
theorem of_append_of {lines : List (List Char)} {first length last : Nat} (h : first + length ≤ last) :
    (LineRange.mk first length).of lines ++
        (LineRange.mk (first + length) (last - (first + length))).of lines =
      (LineRange.mk first (last - first)).of lines := by
  simp only [LineRange.of]
  rw [← List.drop_drop, ← List.take_add]
  congr 1
  omega

theorem textsWithout_append (sign : Sign) (lines more : List (Sign × List Char)) :
    textsWithout sign (lines ++ more) = textsWithout sign lines ++ textsWithout sign more := by
  rw [textsWithout, List.filter_append, List.map_append]
  rfl

theorem textsWithout_map (sign sign' : Sign) (lines : List (List Char)) :
    textsWithout sign (lines.map fun line => (sign', withoutNewline line)) =
      if sign' = sign then [] else lines.map withoutNewline := by
  induction lines with
  | nil => simp [textsWithout]
  | cons line lines ih =>
    rw [List.map_cons, ← List.singleton_append, textsWithout_append, ih]
    split
    · next h => simp [textsWithout, h]
    · next h => simp [textsWithout, h]

def sideLines (old new : List (List Char)) (sign : Sign) (hunk : List Edit) : List (List Char) :=
  textsWithout sign (hunk.flatMap (signedLines old.toArray new.toArray))

theorem sideLines_cons (sign : Sign) (edit : Edit) (hunk : List Edit) :
    sideLines old new sign (edit :: hunk) =
      sideLines old new sign [edit] ++ sideLines old new sign hunk := by
  rw [sideLines, List.flatMap_cons, textsWithout_append, sideLines, List.flatMap_singleton]
  rfl

theorem sideLines_keep {sign : Sign} (hsign : Sign.kept ≠ sign) (length : Nat) :
    sideLines old new sign [.keep o n length] =
      ((LineRange.mk o length).of old).map withoutNewline := by
  rw [sideLines, List.flatMap_singleton, signedLines, textsWithout_map, if_neg hsign, slice_toArray]
  rfl

theorem sideLines_change (old new : List (List Char)) (oldAt deleted newAt inserted : Nat) :
    sideLines old new .added [.change oldAt deleted newAt inserted] =
        ((LineRange.mk oldAt deleted).of old).map withoutNewline ∧
      sideLines old new .removed [.change oldAt deleted newAt inserted] =
        ((LineRange.mk newAt inserted).of new).map withoutNewline := by
  simp only [sideLines, List.flatMap_singleton, signedLines, textsWithout_append, textsWithout_map,
    slice_toArray]
  exact ⟨List.append_nil _, List.nil_append _⟩

/-- An empty range has no lines, wherever it is said to be. -/
theorem of_eq_of_pos {lines : List (List Char)} {first first' length : Nat}
    (h : 0 < length → first = first') :
    (LineRange.mk first length).of lines = (LineRange.mk first' length).of lines := by
  rcases Nat.eq_zero_or_pos length with rfl | hpos
  · simp [LineRange.of]
  · rw [h hpos]

/-- The lines of each text in a hunk are those between the positions that it leads from and to. -/
theorem Covers.sideLines_eq (h : Covers old new o n hunk o' n') :
    (o ≤ o' ∧ n ≤ n') ∧
      sideLines old new .added hunk = ((LineRange.mk o (o' - o)).of old).map withoutNewline ∧
      sideLines old new .removed hunk = ((LineRange.mk n (n' - n)).of new).map withoutNewline := by
  induction h with
  | nil => simp [sideLines, textsWithout, LineRange.of]
  | @keep o n length o' n' edits hshared _ ih =>
    obtain ⟨⟨hold, hnew⟩, holdLines, hnewLines⟩ := ih
    have hsame : (LineRange.mk o length).of old = (LineRange.mk n length).of new :=
      hshared.take_drop_eq
    refine ⟨⟨by omega, by omega⟩, ?_, ?_⟩
    · rw [sideLines_cons, sideLines_keep (by decide), holdLines, ← List.map_append, of_append_of hold]
    · rw [sideLines_cons, sideLines_keep (by decide), hnewLines, hsame, ← List.map_append,
        of_append_of hnew]
  | @change o n oldAt deleted newAt inserted o' n' edits hold hnew hpos hdeleted hinserted _ ih =>
    obtain ⟨⟨holdLe, hnewLe⟩, holdLines, hnewLines⟩ := ih
    obtain ⟨hremoved, hadded⟩ := sideLines_change old new oldAt deleted newAt inserted
    refine ⟨⟨by omega, by omega⟩, ?_, ?_⟩
    · rw [sideLines_cons, hremoved, holdLines, of_eq_of_pos hold, ← List.map_append,
        of_append_of holdLe]
    · rw [sideLines_cons, hadded, hnewLines, of_eq_of_pos hnew, ← List.map_append,
        of_append_of hnewLe]

/-! ### Places that headers state -/

theorem opensWith_append {sign : Sign} (hsign : sign ≠ .kept) {front back : List (Sign × List Char)}
    (hne : front ≠ []) (hfront : ∀ line ∈ front, line.1 = sign)
    (hback : ∀ line ∈ back.head?, line.1 = .kept) : OpensWith sign (front ++ back) := by
  have htake : (front ++ back).takeWhile (·.1 ≠ .kept) = front := by
    rw [List.takeWhile_append_of_pos fun line hline => by simp [hfront line hline, hsign]]
    cases back with
    | nil => simp
    | cons line back => simp [hback line rfl]
  rw [OpensWith, htake]
  exact ⟨hne, hfront⟩

/-- Edits that begin with a change of one text open with its lines, in whatever order the lines of an edit
are. -/
theorem opensWith_flatMap {sign : Sign} (hsign : sign ≠ .kept) {lines : Edit → List (Sign × List Char)}
    {oldAt deleted newAt inserted : Nat} {rest : List Edit}
    (h : Alternating (.change oldAt deleted newAt inserted :: rest))
    (hne : lines (.change oldAt deleted newAt inserted) ≠ [])
    (hchange : ∀ line ∈ lines (.change oldAt deleted newAt inserted), line.1 = sign)
    (hkeep : ∀ first second length, .keep first second length ∈ rest →
      (lines (.keep first second length)).length = length ∧
        ∀ line ∈ lines (.keep first second length), line.1 = .kept) :
    OpensWith sign ((Edit.change oldAt deleted newAt inserted :: rest).flatMap lines) := by
  rw [List.flatMap_cons]
  refine opensWith_append hsign hne hchange fun line hline => ?_
  rcases h.after_change with rfl | ⟨first, second, length, back, rfl, hlast⟩
  · cases hline
  · obtain ⟨hlength, hkept⟩ := hkeep first second length List.mem_cons_self
    refine hkept line (List.mem_of_mem_head? ?_)
    rw [List.flatMap_cons, List.head?_append] at hline
    rcases hlast with hpos | rfl
    · obtain ⟨head, more, heq⟩ := List.exists_cons_of_length_pos (hlength.symm ▸ hpos)
      simpa [heq] using hline
    · simpa using hline

/-- The lines of a kept run. -/
theorem Covers.signedLines_keep (h : Covers old new o n hunk o' n') {first second length : Nat}
    (hmem : .keep first second length ∈ hunk) :
    (signedLines old.toArray new.toArray (.keep first second length)).length = length ∧
      ∀ line ∈ signedLines old.toArray new.toArray (.keep first second length), line.1 = .kept := by
  have hle : first + length ≤ old.length := by
    induction h with
    | nil => cases hmem
    | keep hshared _ ih =>
      rcases List.mem_cons.1 hmem with heq | hmem
      · cases heq
        exact hshared.old_le
      · exact ih hmem
    | change _ _ _ _ _ _ ih => exact ih ((List.mem_cons.1 hmem).resolve_left (by simp))
  rw [signedLines, List.length_map, slice_toArray]
  refine ⟨by rw [List.length_take, List.length_drop]; omega, fun line hline => ?_⟩
  obtain ⟨whole, -, rfl⟩ := List.mem_map.1 hline
  rfl

/-- The lines of a change that takes lines of one text alone. -/
theorem signedLines_change {oldAt deleted newAt inserted : Nat} (hpos : 0 < deleted + inserted)
    (hold : 0 < deleted → oldAt + deleted ≤ old.length)
    (hnew : 0 < inserted → newAt + inserted ≤ new.length) :
    let lines := signedLines old.toArray new.toArray (.change oldAt deleted newAt inserted)
    lines ≠ [] ∧ (deleted = 0 → ∀ line ∈ lines, line.1 = .added) ∧
      (inserted = 0 → ∀ line ∈ lines, line.1 = .removed) := by
  have hlength : (signedLines old.toArray new.toArray
      (.change oldAt deleted newAt inserted)).length = deleted + inserted := by
    rw [signedLines, List.length_append, List.length_map, List.length_map, slice_toArray,
      slice_toArray, List.length_take, List.length_drop, List.length_take, List.length_drop]
    omega
  refine ⟨List.ne_nil_of_length_pos (by omega), ?_, ?_⟩
  · rintro rfl line hline
    rw [signedLines, slice_toArray, List.take_zero, List.map_nil, List.nil_append] at hline
    obtain ⟨whole, -, rfl⟩ := List.mem_map.1 hline
    rfl
  · rintro rfl line hline
    rw [signedLines, slice_toArray, slice_toArray, List.take_zero, List.map_nil,
      List.append_nil] at hline
    obtain ⟨whole, -, rfl⟩ := List.mem_map.1 hline
    rfl

/-- Where the first edit of a hunk starts. -/
theorem IsHunk.first_eq (h : IsHunk old new o n hunk o' n') :
    let lines := hunk.flatMap (signedLines old.toArray new.toArray)
    ((hunk.head?.map Edit.oldStart).getD 0 = o ∨ o = 0 ∧ n = 0 ∧ OpensWith .added lines) ∧
      ((hunk.head?.map Edit.newStart).getD 0 = n ∨ o = 0 ∧ n = 0 ∧ OpensWith .removed lines) := by
  have halternating := h.alternating
  have hbegins := h.begins
  have hkeep (first second length : Nat) (hmem : .keep first second length ∈ hunk) :=
    h.covers.signedLines_keep hmem
  cases h.covers with
  | nil =>
    obtain ⟨rfl, rfl⟩ := hbegins.resolve_left (by simp)
    exact ⟨.inl rfl, .inl rfl⟩
  | keep => exact ⟨.inl rfl, .inl rfl⟩
  | @change _ _ oldAt deleted newAt inserted _ _ rest hold hnew hpos hdeleted hinserted =>
    -- A change comes first only at the top of both texts, and it knows its place in a text that it
    -- takes lines of.
    obtain ⟨rfl, rfl⟩ := hbegins.resolve_left (by simp [Edit.isKeep])
    have holdLe : 0 < deleted → oldAt + deleted ≤ old.length := fun hd => hold hd ▸ hdeleted
    have hnewLe : 0 < inserted → newAt + inserted ≤ new.length := fun hi => hnew hi ▸ hinserted
    obtain ⟨hne, hadded, hremoved⟩ := signedLines_change hpos holdLe hnewLe
    have hopens {sign : Sign} (hsign : sign ≠ .kept) (hall : ∀ line ∈ signedLines old.toArray
        new.toArray (.change oldAt deleted newAt inserted), line.1 = sign) :=
      opensWith_flatMap hsign halternating hne hall fun f s l hmem =>
        hkeep f s l (List.mem_cons_of_mem _ hmem)
    constructor
    · rcases Nat.eq_zero_or_pos deleted with hzero | hd
      · exact .inr ⟨rfl, rfl, hopens (by decide) (hadded hzero)⟩
      · exact .inl (hold hd)
    · rcases Nat.eq_zero_or_pos inserted with hzero | hi
      · exact .inr ⟨rfl, rfl, hopens (by decide) (hremoved hzero)⟩
      · exact .inl (hnew hi)

/-- Where the last edit of a hunk ends. -/
theorem IsHunk.last_eq (h : IsHunk old new o n hunk o' n') :
    let lines := (hunk.flatMap (signedLines old.toArray new.toArray)).reverse
    ((hunk.getLast?.map Edit.oldEnd).getD 0 = o' ∨
        o' = old.length ∧ n' = new.length ∧ OpensWith .added lines) ∧
      ((hunk.getLast?.map Edit.newEnd).getD 0 = n' ∨
        o' = old.length ∧ n' = new.length ∧ OpensWith .removed lines) := by
  have halternating := h.alternating.reverse
  have hends := h.ends
  have hkeep (first second length : Nat) (hmem : .keep first second length ∈ hunk) :=
    h.covers.signedLines_keep hmem
  rcases List.eq_nil_or_concat hunk with rfl | ⟨front, edit, rfl⟩
  · obtain ⟨rfl, rfl⟩ := h.begins.resolve_left (by simp)
    cases h.covers
    exact ⟨.inl rfl, .inl rfl⟩
  · rw [List.concat_eq_append] at halternating hends hkeep h ⊢
    rw [List.reverse_concat] at halternating
    rw [List.getLast?_concat] at hends ⊢
    obtain ⟨o₁, n₁, -, hlast⟩ := h.covers.split
    cases hlast with
    | keep hshared hnil =>
      cases hnil
      exact ⟨.inl rfl, .inl rfl⟩
    | @change _ _ oldAt deleted newAt inserted _ _ _ hold hnew hpos hdeleted hinserted hnil =>
      cases hnil
      obtain ⟨ho, hn⟩ := hends.resolve_left (by simp [Edit.isKeep])
      have holdLe : 0 < deleted → oldAt + deleted ≤ old.length := fun hd => hold hd ▸ hdeleted
      have hnewLe : 0 < inserted → newAt + inserted ≤ new.length := fun hi => hnew hi ▸ hinserted
      obtain ⟨hne, hadded, hremoved⟩ := signedLines_change hpos holdLe hnewLe
      have hopens {sign : Sign} (hsign : sign ≠ .kept) (hall : ∀ line ∈ signedLines old.toArray
          new.toArray (.change oldAt deleted newAt inserted), line.1 = sign) :
          OpensWith sign ((front ++ [Edit.change oldAt deleted newAt inserted]).flatMap
            (signedLines old.toArray new.toArray)).reverse := by
        rw [List.reverse_flatMap, List.reverse_concat]
        refine opensWith_flatMap hsign halternating ?_ ?_ fun f s l hmem => ?_
        · simpa using hne
        · simpa using hall
        · obtain ⟨hlength, hkept⟩ := hkeep f s l (List.mem_append_left _ (List.mem_reverse.1 hmem))
          simpa [hlength] using hkept
      constructor
      · rcases Nat.eq_zero_or_pos deleted with hzero | hd
        · exact .inr ⟨ho, hn, hopens (by decide) (hadded hzero)⟩
        · exact .inl (congrArg (· + deleted) (hold hd))
      · rcases Nat.eq_zero_or_pos inserted with hzero | hi
        · exact .inr ⟨ho, hn, hopens (by decide) (hremoved hzero)⟩
        · exact .inl (congrArg (· + inserted) (hnew hi))

/-- A printed hunk shows what lies between the positions that the hunk leads from and to. -/
theorem IsHunk.showsAt (h : IsHunk old new o n hunk o' n') :
    (printed old.toArray new.toArray hunk).ShowsAt old new ⟨⟨o, o' - o⟩, ⟨n, n' - n⟩⟩ := by
  obtain ⟨⟨hold, hnew⟩, holdLines, hnewLines⟩ := h.covers.sideLines_eq
  obtain ⟨holdFirst, hnewFirst⟩ := h.first_eq
  obtain ⟨holdLast, hnewLast⟩ := h.last_eq
  have hlast : o + (o' - o) = o' ∧ n + (n' - n) = n' := by omega
  refine ⟨holdLines, hnewLines, fun hloose => ?_, fun hloose => ?_⟩
  · simp only [Hunk.IsLoose, LineRange.last, hlast, not_or] at hloose
    rw [printed, oldRange, holdFirst.resolve_right hloose.1, holdLast.resolve_right hloose.2]
  · simp only [Hunk.IsLoose, LineRange.last, hlast, not_or] at hloose
    rw [printed, newRange, hnewFirst.resolve_right hloose.1, hnewLast.resolve_right hloose.2]

/-- Hunks in order have places in order, where they show their lines. -/
theorem Cut.exists_places {hunks : List (List Edit)}
    (h : Cut old new o n hunks old.length new.length) :
    ∃ places,
      List.Forall₂ (Hunk.ShowsAt old new) (hunks.map (printed old.toArray new.toArray)) places ∧
      InOrder old new o n places := by
  generalize ho : old.length = o', hn : new.length = n' at h
  induction h with
  | nil hgap =>
    refine ⟨[], .nil, ?_⟩
    have hsame := hgap.take_drop_eq
    rwa [List.take_of_length_le (by rw [List.length_drop]; omega),
      List.take_of_length_le (by rw [List.length_drop]; omega)] at hsame
  | @cons o n gap o₁ n₁ _ _ hunk more hgap hhunk _ ih =>
    obtain ⟨places, hshow, horder⟩ := ih ho hn
    have hinside := hhunk.covers.inside ⟨hgap.old_le, hgap.new_le, by simp⟩
    obtain ⟨⟨hold, hnew⟩, -⟩ := hhunk.covers.sideLines_eq
    refine ⟨⟨⟨o + gap, o₁ - (o + gap)⟩, ⟨n + gap, n₁ - (n + gap)⟩⟩ :: places,
      .cons hhunk.showsAt hshow, ?_⟩
    simp only [InOrder, LineRange.last, Nat.add_sub_cancel' hold, Nat.add_sub_cancel' hnew]
    refine ⟨Nat.le_add_right _ _, Nat.le_add_right _ _, hinside.old_le, hinside.new_le, ?_, horder⟩
    rw [Nat.add_sub_cancel_left, Nat.add_sub_cancel_left]
    exact hgap.take_drop_eq

end

/-! ### Diffs of texts -/

theorem textHunks_eq_nil_iff (old new : String) (context : Nat) :
    textHunks old new context = [] ↔ old = new := by
  rw [textHunks, hunks_eq_nil_iff]
  refine ⟨fun h => ?_, fun h => h ▸ rfl⟩
  rw [← String.toList_inj, ← flatten_endedLines old.toList, h, flatten_endedLines]

/-- The two lines that name the file. -/
def fileLines (path : String) (hasColor : Bool) : String :=
  Terminal.paint hasColor .info ("--- a/" ++ path) ++ "\n" ++
    Terminal.paint hasColor .info ("+++ b/" ++ path) ++ "\n"

/-- The header of a hunk follows the two lines that name the file. -/
def HasHunk (path : String) (hasColor : Bool) (diff : String) : Prop :=
  ∃ ranges more, diff = fileLines path hasColor ++
    Terminal.paint hasColor .dim ("@@ -" ++ ranges ++ " @@") ++ "\n" ++ more

theorem unified_eq (path old new : String) (context : Nat) (hasColor : Bool) :
    unified path old new context hasColor = fileLines path hasColor ++
      String.join (((textHunks old new context).flatMap (hunkLines hasColor
        (endedLines old.toList).toArray (endedLines new.toList).toArray)).map (· ++ "\n")) := by
  rw [← String.toList_inj, unified]
  simp [fileLines, textHunks]

/-- A diff has a hunk just if the texts differ, in whatever colour. -/
theorem hasHunk_unified_iff {path old new : String} {context : Nat} {hasColor : Bool} :
    HasHunk path hasColor (unified path old new context hasColor) ↔ old ≠ new := by
  rw [unified_eq, Ne, ← textHunks_eq_nil_iff old new context]
  constructor
  · rintro ⟨ranges, more, heq⟩ hnil
    rw [hnil] at heq
    have hlength := congrArg String.length heq
    have hnewline : "\n".length = 1 := by decide
    simp only [List.flatMap_nil, List.map_nil, String.join_nil, String.append_empty,
      String.length_append, hnewline] at hlength
    omega
  · intro hne
    obtain ⟨hunk, hunks, heq⟩ := List.exists_cons_of_ne_nil hne
    have hheader : ∃ ranges, hunkHeader hunk = "@@ -" ++ ranges ++ " @@" :=
      ⟨_, congrArg (· ++ " @@") (by rw [String.append_assoc, String.append_assoc])⟩
    obtain ⟨ranges, hranges⟩ := hheader
    have hjoin : ∃ more, String.join (((hunk :: hunks).flatMap (hunkLines hasColor
        (endedLines old.toList).toArray (endedLines new.toList).toArray)).map (· ++ "\n")) =
          Terminal.paint hasColor .dim ("@@ -" ++ ranges ++ " @@") ++ "\n" ++ more := by
      rw [List.flatMap_cons, hunkLines, hranges, List.cons_append, List.map_cons, String.join_cons]
      exact ⟨_, rfl⟩
    obtain ⟨more, hmore⟩ := hjoin
    refine ⟨ranges, more, ?_⟩
    rw [heq, hmore]
    simp only [String.append_assoc]

/-- A diff is a patch: its hunks show the lines at their places in both texts, the places follow each other
and leave out what is the same, and putting the new lines in the place of the old ones makes the new text. -/
theorem unified_patches {path old new : String} {oldLines newLines : List (List Char)}
    (hpath : '\n' ∉ path.toList) (hold : AreLines old.toList oldLines)
    (hnew : AreLines new.toList newLines) (context : Nat) :
    ∃ hunks places,
      readDiff? (unified path old new context false).toList =
        some ⟨path.toList, path.toList, hunks⟩ ∧
      List.Forall₂ (Hunk.ShowsAt oldLines newLines) hunks places ∧
      InOrder oldLines newLines 0 0 places ∧
      replaced oldLines newLines 0 places = newLines ∧
      (hunks = [] ↔ old = new) := by
  rw [areLines_iff] at hold hnew
  have hread := readDiff?_unified hpath old new context
  rw [hold, hnew] at hread
  obtain ⟨places, hshow, horder⟩ := (cut_hunks_script oldLines newLines context).exists_places
  refine ⟨_, places, hread, ?_, horder, horder.replaced_eq, ?_⟩
  · rw [textHunks, hold, hnew]
    exact hshow
  · rw [List.map_eq_nil_iff, textHunks_eq_nil_iff]

/-- Two hunks without context, between texts where a carriage return ends a line and the last line of one
is not ended. -/
theorem unified_patches_two_hunks :
    '\n' ∉ "p".toList ∧
      AreLines "a\r\nb\rc\nd".toList [['a', '\r', '\n'], ['b', '\r'], ['c', '\n'], ['d']] ∧
      AreLines "a\r\nx\rc\nd\n".toList [['a', '\r', '\n'], ['x', '\r'], ['c', '\n'], ['d', '\n']] ∧
      readDiff? (unified "p" "a\r\nb\rc\nd" "a\r\nx\rc\nd\n" 0 false).toList =
        some ⟨['p'], ['p'],
          [⟨⟨1, 1⟩, ⟨1, 1⟩, [(.removed, ['b', '\r']), (.added, ['x', '\r'])]⟩,
            ⟨⟨3, 1⟩, ⟨3, 1⟩, [(.removed, ['d']), (.added, ['d'])]⟩]⟩ ∧
      ∃ hunks places,
        readDiff? (unified "p" "a\r\nb\rc\nd" "a\r\nx\rc\nd\n" 0 false).toList =
          some ⟨"p".toList, "p".toList, hunks⟩ ∧
        List.Forall₂ (Hunk.ShowsAt [['a', '\r', '\n'], ['b', '\r'], ['c', '\n'], ['d']]
          [['a', '\r', '\n'], ['x', '\r'], ['c', '\n'], ['d', '\n']]) hunks places ∧
        InOrder [['a', '\r', '\n'], ['b', '\r'], ['c', '\n'], ['d']]
          [['a', '\r', '\n'], ['x', '\r'], ['c', '\n'], ['d', '\n']] 0 0 places ∧
        replaced [['a', '\r', '\n'], ['b', '\r'], ['c', '\n'], ['d']]
            [['a', '\r', '\n'], ['x', '\r'], ['c', '\n'], ['d', '\n']] 0 places =
          [['a', '\r', '\n'], ['x', '\r'], ['c', '\n'], ['d', '\n']] ∧
        (hunks = [] ↔ "a\r\nb\rc\nd" = "a\r\nx\rc\nd\n") := by
  have hpath : '\n' ∉ "p".toList := by decide
  have hold : AreLines "a\r\nb\rc\nd".toList
      [['a', '\r', '\n'], ['b', '\r'], ['c', '\n'], ['d']] := areLines_iff.2 (by decide)
  have hnew : AreLines "a\r\nx\rc\nd\n".toList
      [['a', '\r', '\n'], ['x', '\r'], ['c', '\n'], ['d', '\n']] := areLines_iff.2 (by decide)
  exact ⟨hpath, hold, hnew, by cbv, unified_patches hpath hold hnew 0⟩

/-- The header of a hunk at the end of both texts may state a range that is too short, where the hunk
ends with an inserted line that was moved past a deleted one. -/
theorem exists_misstated_range :
    ¬∀ (path old new : String) (context : Nat) (hunks : List Hunk), '\n' ∉ path.toList →
      readDiff? (unified path old new context false).toList =
        some ⟨path.toList, path.toList, hunks⟩ →
      ∀ hunk ∈ hunks, textsWithout .added hunk.lines =
        (hunk.old.of (endedLines old.toList)).map withoutNewline := by
  intro h
  have hread : readDiff? (unified "p" "x\na\n" "a\na\n" 3 false).toList =
      some ⟨['p'], ['p'],
        [⟨⟨0, 1⟩, ⟨1, 1⟩, [(.removed, ['x']), (.kept, ['a']), (.added, ['a'])]⟩]⟩ := by
    cbv
  have hlines := h "p" "x\na\n" "a\na\n" 3 _ (by decide) hread _ List.mem_cons_self
  exact absurd hlines (by decide)

end AssetBake.Diff
