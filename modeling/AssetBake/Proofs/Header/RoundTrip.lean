import AssetBake.Header
import AssetBake.Proofs.Fallible
import AssetBake.Proofs.Header.Reader
import AssetBake.Proofs.Literal.Characters

/-!
# Headers read back

A header gives its reader the table that it was written from. Whatever stands in one text is read as
that text, so nothing in it is taken for an end of its entry or for a part of the next one.
-/

namespace AssetBake

open Text Reader Literal

namespace HeaderStyle

/-! ### What a rendered header is made of -/

theorem entry_eq_ok_iff {style : HeaderStyle} {asset : Asset} {text : List Char} :
    style.entry asset = .ok text ↔ ∃ literal,
      style.literals.render continuationIndent.toList asset.content.toList = .ok literal ∧
      text = entryIndent.toList ++ "\x7b".toList ++ quoted asset.key ++ ",".toList ++ style.gap ++
        literal ++ "\x7d,\n".toList := by
  rw [entry]
  cases style.literals.render continuationIndent.toList asset.content.toList with
  | error fault => simp
  | ok literal => simp only [Except.ok.injEq, exists_eq_left', eq_comm]

theorem entry_eq_error_iff {style : HeaderStyle} {asset : Asset} {failure : Failure} :
    style.entry asset = .error failure ↔ ∃ fault,
      style.literals.check asset.content.toList = .error fault ∧
      failure = fault.failure asset.source.relative := by
  have hrender := @LiteralStyle.render_eq_error_iff style.literals continuationIndent.toList
    asset.content.toList
  simp only [entry, ← hrender]
  cases style.literals.render continuationIndent.toList asset.content.toList with
  | error fault => simp only [Except.error.injEq, exists_eq_left', eq_comm]
  | ok literal => simp

theorem render_eq_ok_iff {style : HeaderStyle} {table : Table} {header : List Char} :
    style.render table = .ok header ↔ ∃ entries,
      List.Forall₂ (fun asset text => style.entry asset = .ok text) table.assets entries ∧
      style.opening table.size ++ entries.flatten ++ style.closing = header := by
  simp only [render, Except.bind_eq_ok_iff, mapM_eq_ok_iff, Except.pure_eq, Except.ok.injEq]

/-- A header is refused for the first text that cannot be written. -/
theorem render_eq_error_iff {style : HeaderStyle} {table : Table} {failure : Failure} :
    style.render table = .error failure ↔ ∃ front asset back, table.assets = front ++ asset :: back ∧
      (∀ a ∈ front, ∃ text, style.entry a = .ok text) ∧ style.entry asset = .error failure := by
  simp only [render, Except.bind_eq_error_iff, mapM_eq_error_iff, Except.pure_eq, reduceCtorEq,
    and_false, exists_false, or_false]

/-! ### The entries -/

theorem isBlank_of_mem_gap (style : HeaderStyle) : ∀ c ∈ style.gap, isBlank c = true := by
  rw [gap]
  cases style.literals.strategy <;> exact List.all_eq_true.1 (by decide)

/-- An entry reads back as its key and its text, and the reader stops right behind it. -/
theorem pair?_entry {style : HeaderStyle}
    (hdelimiter : checkDelimiter style.literals.delimiter = .ok ()) {asset : Asset}
    {text : List Char} (hentry : style.entry asset = .ok text) (rest : List Char) :
    expect? ['\x7d', ';'] (trimStart (text ++ rest)) = none ∧
      pair? (trimStart (text ++ rest)) =
        some ((asset.key, asset.content.toList), '\n' :: rest) := by
  obtain ⟨literal, hliteral, rfl⟩ := entry_eq_ok_iff.1 hentry
  have hindent : ∀ c ∈ continuationIndent.toList, isBlank c = true :=
    List.all_eq_true.1 (by decide)
  have hvalue : sequence? (literal ++ ('\x7d' :: ',' :: '\n' :: rest)) =
      some (asset.content.toList, '\x7d' :: ',' :: '\n' :: rest) :=
    LiteralStyle.sequence?_render hdelimiter hindent hliteral rfl
  have hkey : sequence? (quoted asset.key ++
      ',' :: (style.gap ++ (literal ++ ('\x7d' :: ',' :: '\n' :: rest)))) =
      some (asset.key, ',' :: (style.gap ++ (literal ++ ('\x7d' :: ',' :: '\n' :: rest)))) :=
    sequence?_quoted asset.key rfl
  have hstart : trimStart (entryIndent.toList ++ "\x7b".toList ++ quoted asset.key ++
      ",".toList ++ style.gap ++ literal ++ "\x7d,\n".toList ++ rest) =
      '\x7b' :: (quoted asset.key ++
        ',' :: (style.gap ++ (literal ++ ('\x7d' :: ',' :: '\n' :: rest)))) := by
    simp only [List.append_assoc]
    rw [trimStart_append (List.all_eq_true.1 (by decide))]
    rfl
  have hgap : trimStart (style.gap ++ (literal ++ ('\x7d' :: ',' :: '\n' :: rest))) =
      literal ++ ('\x7d' :: ',' :: '\n' :: rest) := by
    rw [trimStart_append (isBlank_of_mem_gap style),
      trimStart_of_beginsLiteral (beginsLiteral_of_sequence? hvalue)]
  rw [hstart]
  refine ⟨by simp [expect?], ?_⟩
  rw [pair?, expect?]
  simp only [if_true, expect?, Option.bind_eq_bind, Option.bind_some,
    trimStart_of_beginsLiteral (beginsLiteral_of_sequence? hkey), hkey,
    trimStart_cons (c := ',') (by decide), hgap, hvalue]
  rfl

/-- A newline before the entries is skipped. -/
theorem pairs?_newline (text : List Char) : pairs? ('\n' :: text) = pairs? text := by
  rw [pairs?, pairs?.eq_def text]
  rfl

/-- The entries read back in their order, up to what closes the map. -/
theorem pairs?_entries {style : HeaderStyle}
    (hdelimiter : checkDelimiter style.literals.delimiter = .ok ()) {assets : List Asset}
    {entries : List (List Char)}
    (hentries : List.Forall₂ (fun asset text => style.entry asset = .ok text) assets entries) :
    pairs? (entries.flatten ++ style.closing) =
      some (assets.map fun asset => (asset.key, asset.content.toList)) := by
  induction hentries with
  | nil =>
    rw [pairs?]
    rfl
  | @cons asset text assets entries hentry _ ih =>
    obtain ⟨hopen, hpair⟩ := pair?_entry hdelimiter hentry (entries.flatten ++ style.closing)
    rw [List.flatten_cons, List.append_assoc, pairs?, hopen]
    simp only
    split
    · next hnone => simp [hpair] at hnone
    · next hsome =>
      rw [hpair] at hsome
      cases hsome
      rw [pairs?_newline, ih]
      rfl

theorem isSourceChar_of_mem_entry {style : HeaderStyle}
    (hdelimiter : checkDelimiter style.literals.delimiter = .ok ()) {asset : Asset}
    {text : List Char} (hentry : style.entry asset = .ok text) {c : Char} (h : c ∈ text) :
    isSourceChar c = true := by
  obtain ⟨literal, hliteral, rfl⟩ := entry_eq_ok_iff.1 hentry
  have hgap : ∀ c ∈ style.gap, isSourceChar c = true := by
    rw [gap]
    cases style.literals.strategy <;> exact List.all_eq_true.1 (by decide)
  simp only [List.mem_append] at h
  rcases h with (((((h | h) | h) | h) | h) | h) | h
  · exact List.all_eq_true.1 (by decide) c h
  · exact List.all_eq_true.1 (by decide) c h
  · exact isSourceChar_of_isControl (isControl_of_mem_quoted h)
  · exact List.all_eq_true.1 (by decide) c h
  · exact hgap c h
  · exact LiteralStyle.isSourceChar_of_mem_render hdelimiter (List.all_eq_true.1 (by decide))
      hliteral h
  · exact List.all_eq_true.1 (by decide) c h

theorem isSourceChar_of_mem_entries {style : HeaderStyle}
    (hdelimiter : checkDelimiter style.literals.delimiter = .ok ()) {assets : List Asset}
    {entries : List (List Char)}
    (hentries : List.Forall₂ (fun asset text => style.entry asset = .ok text) assets entries)
    {c : Char} (h : c ∈ entries.flatten) : isSourceChar c = true := by
  induction hentries with
  | nil => simp at h
  | cons hentry _ ih =>
    rw [List.flatten_cons, List.mem_append] at h
    rcases h with h | h
    · exact isSourceChar_of_mem_entry hdelimiter hentry h
    · exact ih h

/-! ### The text around the entries -/

/-- The names of a style are identifiers, that of the guard only if the style uses it. -/
structure HasIdentifiers (style : HeaderStyle) : Prop where
  tableName : isIdentifier style.tableName = true
  guardName : style.guard = .define → isIdentifier style.guardName = true

/-- The characters of identifiers and of the fixed texts around the entries. -/
def isFrameChar (c : Char) : Bool :=
  isKeyChar c || " \n/.:#<>,*\x7d;".toList.contains c

theorem isSourceChar_of_isFrameChar {c : Char} (h : isFrameChar c = true) :
    isSourceChar c = true := by
  rw [isSourceChar, Bool.and_eq_true, bne_iff_ne, bne_iff_ne]
  constructor <;> rintro rfl <;> exact absurd h (by decide)

theorem isFrameChar_of_mem_identifier {name : List Char} (hname : isIdentifier name = true) {c : Char}
    (h : c ∈ name) : isFrameChar c = true := by
  simp only [isIdentifier, Bool.and_eq_true, List.all_eq_true] at hname
  simp [isFrameChar, hname.1.2 c h]

theorem isFrameChar_of_mem_toDigits {n : Nat} {c : Char} (h : c ∈ Nat.toDigits 10 n) :
    isFrameChar c = true := by
  have hdigit := Nat.isDigit_of_mem_toDigits (by decide) (by decide) h
  simp [isFrameChar, isKeyChar, Char.isAlphanum, hdigit]

theorem HasIdentifiers.isFrameChar_of_mem_guardOpen {style : HeaderStyle}
    (hstyle : style.HasIdentifiers) {c : Char} (h : c ∈ style.guardOpen) : isFrameChar c = true := by
  rw [guardOpen] at h
  cases hguard : style.guard with
  | pragma =>
    simp only [hguard] at h
    exact List.all_eq_true.1 (by decide) c h
  | define =>
    have hname : ∀ c ∈ style.guardName, isFrameChar c = true := fun c =>
      isFrameChar_of_mem_identifier (hstyle.guardName hguard)
    simp only [hguard, List.mem_append] at h
    rcases h with (((h | h) | h) | h) | h
    · exact List.all_eq_true.1 (by decide) c h
    · exact hname c h
    · exact List.all_eq_true.1 (by decide) c h
    · exact hname c h
    · exact List.all_eq_true.1 (by decide) c h

theorem HasIdentifiers.isFrameChar_of_mem_front {style : HeaderStyle} (hstyle : style.HasIdentifiers)
    {count : Nat} {c : Char} (h : c ∈ style.front count) : isFrameChar c = true := by
  simp only [front, List.mem_append] at h
  rcases h with ((((((h | h) | h) | h) | h) | h) | h) | h
  · exact List.all_eq_true.1 (by decide) c h
  · exact List.all_eq_true.1 (by decide) c h
  · exact isFrameChar_of_mem_toDigits h
  · exact List.all_eq_true.1 (by decide) c h
  · exact hstyle.isFrameChar_of_mem_guardOpen h
  · exact List.all_eq_true.1 (by decide) c h
  · exact List.all_eq_true.1 (by decide) c h
  · exact isFrameChar_of_mem_identifier hstyle.tableName h

theorem HasIdentifiers.isFrameChar_of_mem_closing {style : HeaderStyle}
    (hstyle : style.HasIdentifiers) {c : Char} (h : c ∈ style.closing) : isFrameChar c = true := by
  rw [closing, List.mem_append] at h
  rcases h with h | h
  · exact List.all_eq_true.1 (by decide) c h
  · rw [guardClose] at h
    cases hguard : style.guard with
    | pragma => simp [hguard] at h
    | define =>
      simp only [hguard, List.mem_append] at h
      rcases h with (h | h) | h
      · exact List.all_eq_true.1 (by decide) c h
      · exact isFrameChar_of_mem_identifier (hstyle.guardName hguard) h
      · exact List.all_eq_true.1 (by decide) c h

/-- The text before the entries has no sign of equality but the one before the map. -/
theorem HasIdentifiers.cut?_opening {style : HeaderStyle} (hstyle : style.HasIdentifiers)
    (count : Nat) (rest : List Char) :
    cut? " = \x7b\n".toList (style.opening count ++ rest) = some (style.front count, rest) := by
  refine cut?_append fun tail hne hsuffix => ?_
  have hsign : '=' ∉ tail := fun hmem =>
    absurd (hstyle.isFrameChar_of_mem_front (hsuffix.subset hmem)) (by decide)
  rw [Option.eq_none_iff_forall_ne_some]
  intro after hafter
  -- A second blank stands where the token has the sign.
  cases tail with
  | nil => exact hne rfl
  | cons c tail =>
    have hsplit := congrArg List.tail (expect?_eq_some_iff.1 hafter)
    cases tail with
    | nil => simp at hsplit
    | cons d tail =>
      have hd : d = '=' := by simpa using congrArg List.head? hsplit
      exact hsign (by simp [hd])

/-- The second line of a header says how many files are embedded. -/
theorem statedCount?_opening (style : HeaderStyle) (count : Nat) (rest : List Char) :
    statedCount? (style.opening count ++ rest) = some count := by
  have hline : ∀ c, c.isDigit = false → c ∉ "// Embedded files: ".toList →
      c ∉ "// Embedded files: ".toList ++ Nat.toDigits 10 count := by
    intro c hdigit hfixed hmem
    rcases List.mem_append.1 hmem with h | h
    · exact hfixed h
    · exact notMem_toDigits hdigit count h
  obtain ⟨more, hmore⟩ : ∃ more, style.opening count ++ rest = notice.toList ++ '\n' ::
      ("// Embedded files: ".toList ++ Nat.toDigits 10 count ++ '\n' :: more) :=
    ⟨'\n' :: (style.guardOpen ++ "#include <map>\n#include <string>\n\n".toList ++
      "inline const std::map<std::string, const char *> ".toList ++ style.tableName ++
      " = \x7b\n".toList ++ rest), by simp [opening, front]⟩
  have hnotice : expect? "// Embedded files: ".toList notice.toList = none := by decide
  rw [statedCount?, hmore, plainLines_append (by decide) (by decide),
    plainLines_append (hline _ (by decide) (by decide)) (hline _ (by decide) (by decide))]
  simp only [List.findSome?_cons, hnotice, expect?_append, Option.bind_eq_bind, Option.bind_some]
  rw [isEmpty_or_not_all_isDigit, if_neg (by decide), Nat.ofDigitChars_ten_toDigits]
  rfl

/-! ### The whole header -/

/-- A header gives its reader the keys and texts of its table, in the order of the table, and says
how many they are; it holds neither a NUL nor a carriage return. -/
theorem read_render {style : HeaderStyle} (hstyle : style.HasIdentifiers)
    (hdelimiter : checkDelimiter style.literals.delimiter = .ok ()) {table : Table}
    {header : List Char} (hrender : style.render table = .ok header) :
    initializer? header = some (table.assets.map fun asset => (asset.key, asset.content.toList)) ∧
      statedCount? header = some table.size ∧ '\x00' ∉ header ∧ '\r' ∉ header := by
  obtain ⟨entries, hentries, rfl⟩ := render_eq_ok_iff.1 hrender
  have hchars : ∀ c ∈ style.opening table.size ++ entries.flatten ++ style.closing,
      isSourceChar c = true := by
    intro c h
    simp only [opening, List.mem_append] at h
    rcases h with ((h | h) | h) | h
    · exact isSourceChar_of_isFrameChar (hstyle.isFrameChar_of_mem_front h)
    · exact List.all_eq_true.1 (by decide) c h
    · exact isSourceChar_of_mem_entries hdelimiter hentries h
    · exact isSourceChar_of_isFrameChar (hstyle.isFrameChar_of_mem_closing h)
  refine ⟨?_, ?_, fun h => absurd (hchars _ h) (by decide), fun h => absurd (hchars _ h) (by decide)⟩
  · rw [initializer?, List.append_assoc, hstyle.cut?_opening]
    exact pairs?_entries hdelimiter hentries
  · rw [List.append_assoc]
    exact statedCount?_opening style table.size _

/-- Texts that look like the ends of entries and of the map are read as texts. -/
theorem read_render_lookalikes : ∃ header,
    render ⟨"table".toList, .define, "GUARD_H".toList, ⟨.raw, []⟩⟩
      ⟨[⟨"first".toList, ⟨⟨[]⟩, ⟨[]⟩⟩, "\x7b\"a\", \"b\"\x7d,\n\x7d;\n"⟩,
        ⟨"second".toList, ⟨⟨[]⟩, ⟨[]⟩⟩, " = \x7b\n)"⟩]⟩ = .ok header ∧
    initializer? header = some
      [("first".toList, "\x7b\"a\", \"b\"\x7d,\n\x7d;\n".toList),
        ("second".toList, " = \x7b\n)".toList)] ∧
    statedCount? header = some 2 ∧ '\x00' ∉ header ∧ '\r' ∉ header :=
  ⟨_, rfl, @read_render ⟨"table".toList, .define, "GUARD_H".toList, ⟨.raw, []⟩⟩
    ⟨by decide, fun _ => by decide⟩ rfl
    ⟨[⟨"first".toList, ⟨⟨[]⟩, ⟨[]⟩⟩, "\x7b\"a\", \"b\"\x7d,\n\x7d;\n"⟩,
      ⟨"second".toList, ⟨⟨[]⟩, ⟨[]⟩⟩, " = \x7b\n)"⟩]⟩ _ rfl⟩

end HeaderStyle

end AssetBake
