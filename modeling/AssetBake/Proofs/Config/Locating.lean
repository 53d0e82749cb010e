import AssetBake.Proofs.Config.FirstLines
import AssetBake.Toml.Excerpt

/-!
# Locating entries

The search for the line of an entry reads no TOML; it goes by how lines look. Main statement: in a text
whose headers all look like headers, and in which no line inside a statement looks like one that the
search is after, the line that it finds for a bare name is that on which the entry's key is written.
-/

namespace AssetBake.Config

open Text Toml Toml.Reader

/-- The number of the line on which a byte of a text stands. -/
def lineAt (text : List Char) (first : Nat) : Nat :=
  (splitAtByte first text).1.count '\n' + 1

/-- Whether the line looks like the header of the section that the key is searched in, like a header
with the key, or like a line of the key. -/
def mimics (wanted : Option (List Char)) (key line : List Char) : Bool :=
  match headerName? line with
  | some name => wanted == some name || (wanted == none && name == key)
  | none => assigns key line

/-- To the search for a key, the lines of the part look like what they are. -/
structure IsPlain (wanted : Option (List Char)) (key : List Char) (part : Part) : Prop where
  header : part.statement.isHeader → ∀ line ∈ (plainLines part.text).head?,
    (headerName? (trim line)).isSome
  inside : ∀ line ∈ (plainLines part.text).tail, mimics wanted key (trim line) = false

instance (wanted : Option (List Char)) (key : List Char) (part : Part) :
    Decidable (IsPlain wanted key part) :=
  decidable_of_iff (_ ∧ _) ⟨fun ⟨header, inside⟩ => ⟨header, inside⟩, fun h => ⟨h.header, h.inside⟩⟩

/-- The section that the search takes a line to be in, or to begin. -/
def sectionAt (current : Option (List Char)) (line : List Char) : Option (List Char) :=
  (headerName? line).or current

/-- Whether the search ends at a line. -/
def Finds (wanted : Option (List Char)) (key : List Char) (current : Option (List Char))
    (line : List Char) : Prop :=
  match headerName? line with
  | some name => wanted = none ∧ name = key
  | none => assigns key line = true ∧ current = wanted

/-- The table that is being filled is the one in which the search looks for entries. -/
def IsSought (wanted : Option (List Char)) (place : Place) : Prop :=
  match wanted with
  | none => place = .document
  | some name => ∃ k : Key, k.text = name ∧ place = .table ⟨[], k⟩

theorem holds_of_isSought {wanted : Option (List Char)} {draft : Draft} {k : Key}
    (hsought : IsSought wanted draft.place) (h : draft.current.Holds k []) :
    draft.Holds k wanted.toList := by
  cases wanted with
  | none => exact .document hsought h
  | some name =>
    obtain ⟨k', rfl, hplace⟩ := hsought
    exact .filled hplace h

variable {wanted current : Option (List Char)} {key : List Char} {n m size : Nat}

/-! ### Places -/

theorem splitAtByte_byteSize (s t : List Char) :
    splitAtByte (Utf8.byteSize s) (s ++ t) = (s, t) := by
  induction s with
  | nil => cases t <;> rfl
  | cons c s ih =>
    have hpos := Char.utf8Size_pos c
    rw [Utf8.byteSize_cons, List.cons_append, splitAtByte, Nat.add_sub_cancel_left, ih]
    omega

/-- A place is on the line on which the line that it is in begins. -/
theorem lineAt_eq {text before front after : List Char} (htext : text = before ++ (front ++ after))
    (hfront : '\n' ∉ front) :
    lineAt text (Utf8.byteSize text - Utf8.byteSize after) = before.count '\n' + 1 := by
  have hplace : Utf8.byteSize text - Utf8.byteSize after = Utf8.byteSize (before ++ front) := by
    simp only [htext, Utf8.byteSize_append]
    omega
  rw [lineAt, hplace, htext, ← List.append_assoc, splitAtByte_byteSize, List.count_append,
    List.count_eq_zero.2 hfront, Nat.add_zero]

/-! ### Steps of the search -/

/-- At each line the search ends or goes on with the next. -/
theorem locateFrom_cons (wanted : Option (List Char)) (key : List Char) (n : Nat)
    (current : Option (List Char)) (line : List Char) (rest : List (List Char)) :
    Finds wanted key current (trim line) ∧
        locateFrom wanted key n current (line :: rest) = some n ∨
      ¬Finds wanted key current (trim line) ∧
        locateFrom wanted key n current (line :: rest) =
          locateFrom wanted key (n + 1) (sectionAt current (trim line)) rest := by
  rw [locateFrom, Finds.eq_def, sectionAt]
  cases headerName? (trim line) with
  | some name =>
    by_cases h : wanted = none ∧ name = key
    · exact .inl ⟨h, if_pos h⟩
    · exact .inr ⟨h, if_neg h⟩
  | none =>
    by_cases h : assigns key (trim line) = true ∧ current = wanted
    · exact .inl ⟨h, if_pos h⟩
    · exact .inr ⟨h, if_neg h⟩

theorem not_finds_of_mimics (current : Option (List Char)) {line : List Char}
    (h : mimics wanted key line = false) :
    ¬Finds wanted key current line ∧ (sectionAt current line = wanted → current = wanted) := by
  rw [mimics] at h
  rw [Finds.eq_def, sectionAt]
  cases hname : headerName? line with
  | some name =>
    simp only [hname, Bool.or_eq_false_iff, beq_eq_false_iff_ne, Bool.and_eq_false_iff] at h
    refine ⟨fun ⟨hnone, hkey⟩ => h.2.elim (absurd hnone) (absurd hkey), fun hsame => ?_⟩
    exact absurd hsame.symm h.1
  | none =>
    simp only [hname] at h
    exact ⟨fun ⟨hassigns, _⟩ => by simp [h] at hassigns, id⟩

/-- Lines that look like nothing that is searched do not lead the search there. -/
theorem exists_locateFrom_append (n : Nat) (current : Option (List Char)) {lines : List (List Char)}
    (hlines : ∀ line ∈ lines, mimics wanted key (trim line) = false) (rest : List (List Char)) :
    ∃ last, (last = wanted → current = wanted) ∧
      locateFrom wanted key n current (lines ++ rest) =
        locateFrom wanted key (n + lines.length) last rest := by
  induction lines generalizing n current with
  | nil => exact ⟨current, id, rfl⟩
  | cons line lines ih =>
    obtain ⟨hline, hlines⟩ := List.forall_mem_cons.1 hlines
    obtain ⟨hfinds, hsection⟩ := not_finds_of_mimics current hline
    obtain ⟨last, hlast, heq⟩ := ih (n + 1) (sectionAt current (trim line)) hlines
    refine ⟨last, hsection ∘ hlast, ?_⟩
    rcases locateFrom_cons wanted key n current line (lines ++ rest) with ⟨hfound, -⟩ | ⟨-, hgo⟩
    · exact absurd hfound hfinds
    · rw [List.cons_append, hgo, heq, List.length_cons, Nat.add_assoc, Nat.add_comm 1]

/-! ### The first line of a part -/

section

variable {start s rest x : List Char} {statement : Statement}

theorem trim_firstLine_mark (s : List Char) :
    trim (firstLine ('\ufeff' :: s)) = '\ufeff' :: trimEnd (firstLine s) := by
  rw [firstLine_cons (by decide)]
  exact trim_append_cons (w := []) (List.forall_mem_nil _) rfl _

theorem assigns_of_head_ne (hkey : IsBareName key) {line : List Char}
    (hline : ∀ c ∈ line.head?, isBareKeyChar c = false) : assigns key line = false := by
  obtain ⟨c, more, rfl, hc⟩ := hkey.exists_cons
  rw [assigns, Bool.and_eq_false_iff]
  refine .inl (Bool.eq_false_iff.2 fun h => ?_)
  obtain ⟨tail, rfl⟩ := List.isPrefixOf_iff_prefix.1 h
  simp [hline c rfl] at hc

/-- What `header_of_headerName?` says, of a statement that may stand behind a byte order mark. -/
theorem header_of_start (hstart : start = s ∨ start = '\ufeff' :: s)
    (h : statement?.runOn size s = some (some statement, rest))
    (hname : headerName? (trim (firstLine start)) = some x) (hx : IsBareName x) :
    ∃ front after last span, start = front ++ after ∧ '\n' ∉ front ∧
      statement = .header ⟨[], ⟨x, size - Utf8.byteSize after, last⟩⟩ span := by
  rcases hstart with rfl | rfl
  · exact header_of_headerName? h hname hx
  · rw [trim_firstLine_mark] at hname
    cases hname

/-- What `value_of_assigns` says, of a statement that may stand behind a byte order mark. -/
theorem value_of_start (hstart : start = s ∨ start = '\ufeff' :: s)
    (h : statement?.runOn size s = some (some statement, rest))
    (hassigns : assigns x (trim (firstLine start)) = true) (hx : IsBareName x) :
    ∃ front after last item, start = front ++ after ∧ '\n' ∉ front ∧ item.Settled ∧
      statement = .value ⟨[], ⟨x, size - Utf8.byteSize after, last⟩⟩ item := by
  rcases hstart with rfl | rfl
  · exact value_of_assigns h hassigns hx
  · rw [trim_firstLine_mark, assigns_of_head_ne hx (by rintro _ ⟨⟩; rfl)] at hassigns
    cases hassigns

/-- Nothing is found behind the last statement. -/
theorem locateFrom_last (hstart : start = s ∨ start = '\ufeff' :: s) (hs : s.dropWhile isWs = [])
    (hkey : IsBareName key) : locateFrom wanted key n current (plainLines start) = none := by
  have hws : ∀ c ∈ s, isWs c = true := by
    rw [← List.takeWhile_append_dropWhile (p := isWs) (l := s), hs, List.append_nil]
    exact List.all_eq_true.1 List.all_takeWhile
  have hblank : '\n' ∉ s := fun hmem => absurd (hws _ hmem) (by decide)
  have hseen : '\n' ∉ start ∧ headerName? (trim start) = none ∧ assigns key (trim start) = false := by
    rcases hstart with rfl | rfl
    · rw [trim_of_blank fun c hc => isBlank_of_isWs (hws c hc)]
      exact ⟨hblank, rfl, assigns_of_head_ne hkey nofun⟩
    · have htrim := trim_append_cons (w := []) (c := '\ufeff') (List.forall_mem_nil _) rfl s
      rw [List.nil_append] at htrim
      rw [htrim]
      exact ⟨by simp [hblank], rfl, assigns_of_head_ne hkey (by rintro _ ⟨⟩; rfl)⟩
  by_cases hne : start = []
  · rw [hne]
    rfl
  · rw [plainLines, newlinePieces_of_notMem hseen.1 hne, List.map_singleton, locateFrom,
      trim_withoutLineEnd]
    simp [hseen.2, locateFrom]

/-- What the search finds at the first line of a statement is what the statement says. -/
theorem holds_of_finds {draft next : Draft} (hstart : start = s ∨ start = '\ufeff' :: s)
    (h : statement?.runOn size s = some (some statement, rest))
    (hfinds : Finds wanted key current (trim (firstLine start))) (hkey : IsBareName key)
    (hcurrent : current = wanted → IsSought wanted draft.place)
    (hnext : statement.apply draft = some next) :
    ∃ front after last, start = front ++ after ∧ '\n' ∉ front ∧
      next.Holds ⟨key, size - Utf8.byteSize after, last⟩ wanted.toList := by
  rw [Finds.eq_def] at hfinds
  split at hfinds
  · next name hname =>
    obtain ⟨rfl, rfl⟩ := hfinds
    obtain ⟨front, after, last, span, hfront, hnewline, rfl⟩ := header_of_start hstart h hname hkey
    obtain ⟨t, -, -, hplace, -⟩ := Draft.header_eq_some hnext
    exact ⟨front, after, last, hfront, hnewline, .begun hplace⟩
  · next hname =>
    obtain ⟨hassigns, hsame⟩ := hfinds
    obtain ⟨front, after, last, item, hfront, hnewline, hitem, rfl⟩ :=
      value_of_start hstart h hassigns hkey
    obtain ⟨-, hplace, -⟩ := Draft.assign_eq_some hnext
    exact ⟨front, after, last, hfront, hnewline,
      holds_of_isSought (hplace ▸ hcurrent hsame) (Draft.holds_assign hitem hnext)⟩

/-- Behind the first line of a statement, the search takes itself to be in the section searched in only
where that section is being filled. -/
theorem isSought_of_sectionAt {draft next : Draft} (hstart : start = s ∨ start = '\ufeff' :: s)
    (h : statement?.runOn size s = some (some statement, rest))
    (hwanted : ∀ name ∈ wanted, IsBareName name)
    (hheader : statement.isHeader → (headerName? (trim (firstLine start))).isSome)
    (hcurrent : current = wanted → IsSought wanted draft.place)
    (hnext : statement.apply draft = some next)
    (hsection : sectionAt current (trim (firstLine start)) = wanted) : IsSought wanted next.place := by
  rw [sectionAt] at hsection
  cases hname : headerName? (trim (firstLine start)) with
  | some name =>
    rw [hname, Option.some_or] at hsection
    obtain ⟨front, after, last, span, -, -, rfl⟩ :=
      header_of_start hstart h hname (hwanted name hsection.symm)
    obtain ⟨t, -, -, hplace, -⟩ := Draft.header_eq_some hnext
    exact hsection ▸ ⟨_, rfl, hplace⟩
  | none =>
    rw [hname, Option.none_or] at hsection
    rw [hname] at hheader
    have hplace := place_of_apply (Bool.eq_false_iff.2 fun hstatement => by cases hheader hstatement) hnext
    exact hplace ▸ hcurrent hsection

end

/-! ### The whole search -/

/-- A statement ends where a line does, so that its text and the rest fall into their own lines. -/
theorem plainLines_append_of_ended {s rest : List Char} (h : rest = [] ∨ s.getLast? = some '\n') :
    plainLines (s ++ rest) = plainLines s ++ plainLines rest := by
  rw [plainLines, plainLines, plainLines]
  rcases h with rfl | hlast
  · rw [List.append_nil]
    exact (List.append_nil _).symm
  · rw [newlinePieces_append_of_ended hlast, List.map_append]

/-- The search finds the line on which the key of an entry is written, in the section searched in. -/
theorem locateFrom_parted (before : List Char) {text start s : List Char} {ps : List Part}
    {draft last : Draft} {document : Toml.Table} (hparts : Parted size start s ps)
    (hstart : start = s ∨ start = '\ufeff' :: s) (htext : text = before ++ start)
    (hsize : size = Utf8.byteSize text) (hkey : IsBareName key)
    (hwanted : ∀ name ∈ wanted, IsBareName name) (hplain : ∀ part ∈ ps, IsPlain wanted key part)
    (hkind : draft.current.kind = .headed) (hadd : draft.add ps = some last)
    (hclose : last.close = some document) (hcurrent : current = wanted → IsSought wanted draft.place)
    (h : locateFrom wanted key (before.count '\n' + 1) current (plainLines start) = some n) :
    ∃ k : Key, k.text = key ∧ document.Holds k wanted.toList ∧ n = lineAt text k.span.first := by
  induction hparts generalizing before draft current with
  | last hnone =>
    rw [locateFrom_last hstart (statement?_eq_some hnone) hkey] at h
    cases h
  | @cons mark s front rest statement more hsome hs hne hend hmore ih =>
    obtain ⟨hpart, hmoreParts⟩ := List.forall_mem_cons.1 hplain
    obtain ⟨next, hnext, hrest⟩ := Option.bind_eq_some_iff.1 ((Draft.add_cons ..).symm.trans hadd)
    have hended : rest = [] ∨ (mark ++ front).getLast? = some '\n' :=
      hend.imp_right fun hlast => by rw [List.getLast?_append, hlast, Option.some_or]
    obtain ⟨line, lines, hlines⟩ : ∃ line lines, plainLines (mark ++ front) = line :: lines := by
      refine List.exists_cons_of_ne_nil (mt List.map_eq_nil_iff.1 (newlinePieces_ne_nil ?_))
      exact List.append_ne_nil_of_right_ne_nil mark hne
    have hsplit : plainLines (mark ++ s) = line :: (lines ++ plainLines rest) := by
      rw [hs, ← List.append_assoc, plainLines_append_of_ended hended, hlines, List.cons_append]
    have htrim : trim line = trim (firstLine (mark ++ s)) :=
      trim_head_plainLines (by rw [hsplit, List.head?_cons])
    rw [hsplit] at h
    rcases locateFrom_cons wanted key (before.count '\n' + 1) current line (lines ++ plainLines rest)
      with ⟨hfinds, hfound⟩ | ⟨-, hgo⟩
    · -- The search ends at the first line of the part.
      obtain ⟨above, after, stop, habove, hnewline, hholds⟩ :=
        holds_of_finds hstart hsome (htrim ▸ hfinds) hkey hcurrent hnext
      refine ⟨_, rfl, hholds.close_add (kind_of_apply hkind hnext) hrest hclose, ?_⟩
      rw [hsize, lineAt_eq (habove ▸ htext) hnewline]
      exact Option.some.inj (h.symm.trans hfound)
    · -- It goes on behind the part, since no other line of the part is what it is after.
      have hsought := isSought_of_sectionAt hstart hsome hwanted
        (fun hheader => htrim ▸ hpart.header hheader line (by rw [hlines]; rfl)) hcurrent hnext
      have hinside : ∀ line ∈ lines, mimics wanted key (trim line) = false := by
        simpa [hlines] using hpart.inside
      obtain ⟨section', hsection, hskip⟩ := exists_locateFrom_append (before.count '\n' + 1 + 1)
        (sectionAt current (trim line)) hinside (plainLines rest)
      rw [hgo, hskip] at h
      rcases hended with rfl | hended
      · cases h
      · have hcount : (mark ++ front).count '\n' = lines.length + 1 := by
          rw [← length_newlinePieces hended, ← List.length_cons, ← hlines, plainLines, List.length_map]
        refine ih (before ++ (mark ++ front)) (.inl rfl) ?_ hmoreParts
          (kind_of_apply hkind hnext) hrest (fun hsame => hsought (htrim ▸ hsection hsame)) ?_
        · rw [htext, hs, List.append_assoc, List.append_assoc]
        · rw [List.count_append, hcount, ← h]
          congr 1
          omega

end AssetBake.Config
