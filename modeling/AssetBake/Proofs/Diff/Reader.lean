import AssetBake.Diff.Unified
import AssetBake.Proofs.Literal.Reader
import AssetBake.Proofs.Text.EndedLines
import AssetBake.Proofs.Text.Pieces

/-!
# Reading diffs

A reader of unified diffs that knows nothing of how they are made. It gives back the hunks, each with the
ranges that its header states and with its lines, signed.
-/

namespace AssetBake.Diff

open Text Reader

/-! ### What a diff says -/

/-- Where a line of a hunk stands: in both texts, or in the old or the new one alone. -/
inductive Sign
  | kept
  | removed
  | added
deriving DecidableEq

/-- A range of lines: the number of lines before it, and its own. -/
structure LineRange where
  first : Nat
  length : Nat
deriving DecidableEq

/-- A hunk as it is printed. -/
structure Hunk where
  old : LineRange
  new : LineRange
  lines : List (Sign × List Char)
deriving DecidableEq

/-- A diff as it is printed. -/
structure FileDiff where
  oldPath : List Char
  newPath : List Char
  hunks : List Hunk
deriving DecidableEq

/-! ### The reader -/

def readNumber? (digits : List Char) : Option Nat :=
  if digits.isEmpty || !digits.all Char.isDigit then none else some (Nat.ofDigitChars 10 digits 0)

/-- The range with so many lines that a header names by a number. A range is named by its first line,
counted from one, and an empty one by the line that it follows. -/
def rangeAt? (number length : Nat) : Option LineRange :=
  if length = 0 then some ⟨number, 0⟩
  else if number = 0 then none
  else some ⟨number - 1, length⟩

/-- A range in a header; it has one line unless it says how many. -/
def readRange? (text : List Char) : Option LineRange :=
  match text.splitOn ',' with
  | [number] => do rangeAt? (← readNumber? number) 1
  | [number, length] => do rangeAt? (← readNumber? number) (← readNumber? length)
  | _ => none

def readHeader? (line : List Char) : Option (LineRange × LineRange) :=
  match line.splitOn ' ' with
  | [['@', '@'], '-' :: old, '+' :: new, ['@', '@']] => do
    return (← readRange? old, ← readRange? new)
  | _ => none

def readLine? : List Char → Option (Sign × List Char)
  | ' ' :: text => some (.kept, text)
  | '-' :: text => some (.removed, text)
  | '+' :: text => some (.added, text)
  | _ => none

/-- The lines in front of the first header, and the hunks. -/
def readHunks? : List (List Char) → Option (List (Sign × List Char) × List Hunk)
  | [] => some ([], [])
  | line :: rest => do
    let (lines, hunks) ← readHunks? rest
    match readLine? line with
    | some signed => return (signed :: lines, hunks)
    | none =>
      let (old, new) ← readHeader? line
      return ([], ⟨old, new, lines⟩ :: hunks)

/-- Two lines that name the file, then hunks; each line ends with a newline. -/
def readDiff? (text : List Char) : Option FileDiff :=
  match text.splitOn '\n' with
  | old :: new :: rest => do
    let oldPath ← expect? "--- a/".toList old
    let newPath ← expect? "+++ b/".toList new
    if rest.getLast? = some [] then
      let (lines, hunks) ← readHunks? rest.dropLast
      if lines = [] then return ⟨oldPath, newPath, hunks⟩ else none
    else none
  | _ => none

/-! ### Reading printed ranges -/

theorem readNumber?_toDigits (n : Nat) : readNumber? (Nat.toDigits 10 n) = some n := by
  rw [readNumber?, isEmpty_or_not_all_isDigit, if_neg (by decide), Nat.ofDigitChars_ten_toDigits]

theorem toList_rangeText (first last : Nat) :
    (rangeText first last).toList =
      if last - first = 1 then Nat.toDigits 10 (first + 1)
      else if last - first = 0 then Nat.toDigits 10 first ++ [',', '0']
      else Nat.toDigits 10 (first + 1) ++ ',' :: Nat.toDigits 10 (last - first) := by
  have hzero : ",0".toList = [',', '0'] := by decide
  have hcomma : ",".toList = [','] := by decide
  simp only [rangeText]
  split
  · simp
  · split
    · simp [hzero]
    · simp [hcomma]

theorem readRange?_rangeText (first last : Nat) :
    readRange? (rangeText first last).toList = some ⟨first, last - first⟩ := by
  have hnumber (n : Nat) : (Nat.toDigits 10 n).splitOn ',' = [Nat.toDigits 10 n] :=
    List.splitOn_eq_singleton (notMem_toDigits (by decide) n)
  rw [toList_rangeText]
  split
  · next hone =>
    rw [readRange?, hnumber]
    simp [readNumber?_toDigits, rangeAt?, hone]
  · split
    · next hzero =>
      have hlast : readNumber? ['0'] = some 0 := by decide
      rw [readRange?, splitOn_append_cons, hnumber]
      have hnone : ['0'].splitOn ',' = [['0']] := by decide
      simp [hnone, readNumber?_toDigits, rangeAt?, hzero, hlast]
    · next hzero =>
      rw [readRange?, splitOn_append_cons, hnumber, hnumber]
      simp [readNumber?_toDigits, rangeAt?, hzero]

/-- A character of a range is a digit or a comma. -/
theorem notMem_rangeText {c : Char} (hdigit : c.isDigit = false) (hcomma : c ≠ ',')
    (first last : Nat) : c ∉ (rangeText first last).toList := by
  have hzero : c ≠ '0' := by
    rintro rfl
    cases hdigit
  rw [toList_rangeText]
  split
  · exact notMem_toDigits hdigit _
  · split
    · simp [notMem_toDigits hdigit, hcomma, hzero]
    · simp [notMem_toDigits hdigit, hcomma]

/-! ### Reading printed hunks -/

def oldRange (hunk : List Edit) : LineRange :=
  let first := (hunk.head?.map Edit.oldStart).getD 0
  ⟨first, (hunk.getLast?.map Edit.oldEnd).getD 0 - first⟩

def newRange (hunk : List Edit) : LineRange :=
  let first := (hunk.head?.map Edit.newStart).getD 0
  ⟨first, (hunk.getLast?.map Edit.newEnd).getD 0 - first⟩

theorem exists_toList_hunkHeader (hunk : List Edit) :
    ∃ old new : List Char, (hunkHeader hunk).toList = "@@ -".toList ++ old ++ " +".toList ++ new ++
        " @@".toList ∧
      readRange? old = some (oldRange hunk) ∧ readRange? new = some (newRange hunk) ∧
      ∀ c, c.isDigit = false → c ≠ ',' → c ∉ old ∧ c ∉ new :=
  ⟨_, _, by simp only [hunkHeader, String.toList_append], readRange?_rangeText _ _,
    readRange?_rangeText _ _,
    fun _ hdigit hcomma => ⟨notMem_rangeText hdigit hcomma _ _, notMem_rangeText hdigit hcomma _ _⟩⟩

theorem readHeader?_hunkHeader (hunk : List Edit) :
    readHeader? (hunkHeader hunk).toList = some (oldRange hunk, newRange hunk) := by
  obtain ⟨old, new, heq, hold, hnew, hchars⟩ := exists_toList_hunkHeader hunk
  obtain ⟨hspaceOld, hspaceNew⟩ := hchars ' ' (by decide) (by decide)
  have hopen : "@@ -".toList = ['@', '@', ' ', '-'] := by decide
  have hplus : " +".toList = [' ', '+'] := by decide
  have hclose : " @@".toList = [' ', '@', '@'] := by decide
  have hpieces : (hunkHeader hunk).toList.splitOn ' ' =
      [['@', '@'], '-' :: old, '+' :: new, ['@', '@']] := by
    have hshape : (hunkHeader hunk).toList =
        [' '].intercalate [['@', '@'], '-' :: old, '+' :: new, ['@', '@']] := by
      simp [heq, hopen, hplus, hclose, List.intercalate_cons_cons]
    rw [hshape]
    refine List.splitOn_intercalate ' ' ?_ (List.cons_ne_nil _ _)
    simp [hspaceOld, hspaceNew]
  rw [readHeader?, hpieces]
  simp [hold, hnew]

theorem readLine?_hunkHeader (hunk : List Edit) : readLine? (hunkHeader hunk).toList = none := by
  obtain ⟨old, new, heq, -⟩ := exists_toList_hunkHeader hunk
  have hopen : "@@ -".toList = ['@', '@', ' ', '-'] := by decide
  rw [heq, hopen]
  rfl

theorem newline_notMem_hunkHeader (hunk : List Edit) : '\n' ∉ (hunkHeader hunk).toList := by
  obtain ⟨old, new, heq, -, -, hchars⟩ := exists_toList_hunkHeader hunk
  obtain ⟨hold, hnew⟩ := hchars '\n' (by decide) (by decide)
  have htexts : '\n' ∉ "@@ -".toList ∧ '\n' ∉ " +".toList ∧ '\n' ∉ " @@".toList := by decide
  rw [heq]
  simp only [List.mem_append, not_or]
  exact ⟨⟨⟨⟨htexts.1, hold⟩, htexts.2.1⟩, hnew⟩, htexts.2.2⟩

/-- The lines of an edit, each with its sign and without its newline. -/
def signedLines (old new : Array (List Char)) : Edit → List (Sign × List Char)
  | .keep first _ length =>
    (slice old first (first + length)).map fun line => (.kept, withoutNewline line)
  | .change first length newFirst newLength =>
    (slice old first (first + length)).map (fun line => (.removed, withoutNewline line)) ++
      (slice new newFirst (newFirst + newLength)).map fun line => (.added, withoutNewline line)

/-- A hunk as its header and its lines show it. -/
def printed (old new : Array (List Char)) (hunk : List Edit) : Hunk :=
  ⟨oldRange hunk, newRange hunk, hunk.flatMap (signedLines old new)⟩

def Sign.toChar : Sign → Char
  | kept => ' '
  | removed => '-'
  | added => '+'

theorem readLine?_cons (sign : Sign) (text : List Char) :
    readLine? (sign.toChar :: text) = some (sign, text) := by
  cases sign <;> rfl

theorem readHunks?_append {rest : List (List Char)} {more : List (Sign × List Char)}
    {hunks : List Hunk} (h : readHunks? rest = some (more, hunks))
    (lines : List (Sign × List Char)) :
    readHunks? (lines.map (fun line => line.1.toChar :: line.2) ++ rest) =
      some (lines ++ more, hunks) := by
  induction lines with
  | nil => exact h
  | cons line lines ih =>
    rw [List.map_cons, List.cons_append, readHunks?, ih]
    simp [readLine?_cons]

/-! ### Reading printed diffs -/

/-- A newline stands only at the ends of the lines. -/
def EndInNewlines (lines : Array (List Char)) : Prop :=
  ∀ line ∈ lines.toList, '\n' ∉ line.dropLast

theorem slice_eq {α : Type} (a : Array α) (first last : Nat) :
    slice a first last = (a.toList.drop first).take (last - first) := by
  rw [slice, Array.toList_extract, List.extract_eq_take_drop]

theorem EndInNewlines.of_mem_slice {lines : Array (List Char)} (h : EndInNewlines lines)
    {first last : Nat} {line : List Char} (hline : line ∈ slice lines first last) :
    '\n' ∉ line.dropLast := by
  rw [slice_eq] at hline
  exact h line (List.mem_of_mem_drop (List.mem_of_mem_take hline))

section

variable {old new : Array (List Char)}

theorem map_toList_signed (color : Terminal.Color) (sign : Sign) {lines : List (List Char)}
    (h : ∀ line ∈ lines, '\n' ∉ line.dropLast) :
    (lines.map (signed false color sign.toChar)).map String.toList =
      (lines.map fun line => (sign, withoutNewline line)).map
        fun line => line.1.toChar :: line.2 := by
  rw [List.map_map, List.map_map]
  refine List.map_congr_left fun line hline => ?_
  simp [signed, Terminal.paint, dropEndWhile_newline (h line hline)]

theorem map_toList_editLines (hold : EndInNewlines old) (hnew : EndInNewlines new) (edit : Edit) :
    (editLines false old new edit).map String.toList =
      (signedLines old new edit).map fun line => line.1.toChar :: line.2 := by
  cases edit with
  | keep => exact map_toList_signed .dim .kept fun _ => hold.of_mem_slice
  | change =>
    rw [editLines, signedLines, List.map_append, List.map_append]
    exact congr (congrArg (· ++ ·) (map_toList_signed .error .removed fun _ => hold.of_mem_slice))
      (map_toList_signed .success .added fun _ => hnew.of_mem_slice)

theorem map_toList_hunkLines (hold : EndInNewlines old) (hnew : EndInNewlines new)
    (hunk : List Edit) :
    (hunkLines false old new hunk).map String.toList =
      (hunkHeader hunk).toList ::
        (printed old new hunk).lines.map fun line => line.1.toChar :: line.2 := by
  rw [hunkLines, List.map_cons, List.map_flatMap, printed, List.map_flatMap]
  simp only [map_toList_editLines hold hnew]
  rfl

theorem newline_notMem_printed (hold : EndInNewlines old) (hnew : EndInNewlines new)
    (hunk : List Edit) : ∀ line ∈ (printed old new hunk).lines, '\n' ∉ line.2 := by
  rintro line hline
  obtain ⟨edit, -, hmem⟩ := List.mem_flatMap.1 hline
  cases edit with
  | keep =>
    obtain ⟨whole, hwhole, rfl⟩ := List.mem_map.1 hmem
    exact newline_notMem_withoutNewline (hold.of_mem_slice hwhole)
  | change =>
    rcases List.mem_append.1 hmem with hmem | hmem
    · obtain ⟨whole, hwhole, rfl⟩ := List.mem_map.1 hmem
      exact newline_notMem_withoutNewline (hold.of_mem_slice hwhole)
    · obtain ⟨whole, hwhole, rfl⟩ := List.mem_map.1 hmem
      exact newline_notMem_withoutNewline (hnew.of_mem_slice hwhole)

theorem readHunks?_flatMap (hold : EndInNewlines old) (hnew : EndInNewlines new)
    (hunks : List (List Edit)) :
    readHunks? ((hunks.flatMap (hunkLines false old new)).map String.toList) =
      some ([], hunks.map (printed old new)) := by
  induction hunks with
  | nil => rfl
  | cons hunk hunks ih =>
    rw [List.flatMap_cons, List.map_append, map_toList_hunkLines hold hnew, List.cons_append,
      readHunks?, readHunks?_append ih, List.append_nil]
    simp [readLine?_hunkHeader, readHeader?_hunkHeader, printed]

end

theorem pieces_lines {lines : List (List Char)} (h : ∀ line ∈ lines, '\n' ∉ line) :
    (lines.flatMap (· ++ ['\n'])).splitOn '\n' = lines ++ [[]] := by
  induction lines with
  | nil => rfl
  | cons line lines ih =>
    obtain ⟨hline, hlines⟩ := List.forall_mem_cons.1 h
    rw [List.flatMap_cons, List.append_assoc, List.singleton_append, splitOn_append_cons,
      List.splitOn_eq_singleton hline, ih hlines]
    rfl

def textHunks (old new : String) (context : Nat) : List (List Edit) :=
  let oldLines := endedLines old.toList
  let newLines := endedLines new.toList
  hunks context (edits (compact oldLines.toArray newLines.toArray (script oldLines newLines)))

theorem endInNewlines_endedLines (text : List Char) : EndInNewlines (endedLines text).toArray :=
  (areLines_endedLines text).newline_is_last

theorem toList_join_lines (lines : List String) :
    (String.join (lines.map (· ++ "\n"))).toList =
      (lines.map String.toList).flatMap (· ++ ['\n']) := by
  have hnewline : "\n".toList = ['\n'] := by decide
  simp [List.flatMap_map, hnewline]

/-- The lines of a diff after the two that name the file. -/
def hunkTexts (old new : String) (context : Nat) : List (List Char) :=
  ((textHunks old new context).flatMap
    (hunkLines false (endedLines old.toList).toArray (endedLines new.toList).toArray)).map
      String.toList

theorem newline_notMem_hunkTexts (old new : String) (context : Nat) :
    ∀ line ∈ hunkTexts old new context, '\n' ∉ line := by
  intro line hline
  have hold := endInNewlines_endedLines old.toList
  have hnew := endInNewlines_endedLines new.toList
  rw [hunkTexts, List.map_flatMap] at hline
  obtain ⟨hunk, -, hmem⟩ := List.mem_flatMap.1 hline
  rw [map_toList_hunkLines hold hnew] at hmem
  rcases List.mem_cons.1 hmem with rfl | hmem
  · exact newline_notMem_hunkHeader hunk
  · obtain ⟨⟨sign, text⟩, hsigned, rfl⟩ := List.mem_map.1 hmem
    have htext := newline_notMem_printed hold hnew hunk _ hsigned
    cases sign <;> simpa [Sign.toChar] using htext

theorem toList_unified (path old new : String) (context : Nat) :
    (unified path old new context false).toList =
      (("--- a/".toList ++ path.toList) :: ("+++ b/".toList ++ path.toList) ::
        hunkTexts old new context).flatMap (· ++ ['\n']) := by
  rw [unified, toList_join_lines]
  simp only [Terminal.paint, Bool.false_eq_true, if_false, List.cons_append, List.nil_append,
    List.map_cons, String.toList_append]
  rfl

/-- The reader gets back the hunks that a diff is printed from. -/
theorem readDiff?_unified {path : String} (hpath : '\n' ∉ path.toList) (old new : String)
    (context : Nat) :
    readDiff? (unified path old new context false).toList =
      some ⟨path.toList, path.toList, (textHunks old new context).map
        (printed (endedLines old.toList).toArray (endedLines new.toList).toArray)⟩ := by
  have hnames : '\n' ∉ "--- a/".toList ∧ '\n' ∉ "+++ b/".toList := by decide
  have hlines : ∀ line ∈ ("--- a/".toList ++ path.toList) :: ("+++ b/".toList ++ path.toList) ::
      hunkTexts old new context, '\n' ∉ line := by
    simp only [List.forall_mem_cons, List.mem_append, not_or]
    exact ⟨⟨hnames.1, hpath⟩, ⟨hnames.2, hpath⟩, newline_notMem_hunkTexts old new context⟩
  rw [readDiff?, toList_unified, pieces_lines hlines]
  simp only [List.cons_append, expect?_append, List.getLast?_concat, List.dropLast_concat]
  rw [hunkTexts, readHunks?_flatMap (endInNewlines_endedLines _) (endInNewlines_endedLines _)]
  rfl

end AssetBake.Diff
