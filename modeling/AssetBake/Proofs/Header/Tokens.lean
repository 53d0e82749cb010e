import AssetBake.Proofs.Header.Preprocessor
import AssetBake.Proofs.Header.RoundTrip

/-!
# Tokens of headers

A rendered header, piece by piece as its lexer takes it: comments, the directives of the guard, two
includes, and one declaration with an entry for each asset. Whatever stands in an asset is in texts, so
no directive and no brace can come from there.
-/

namespace AssetBake

open Text Reader Literal

namespace Reader

/-! ### Values -/

theorem Lexes.quoted (s : List Char) : Lexes (quoted s) [.token (.text s)] := by
  have hread : ∀ rest, literal? ('"' :: (escape s ++ ['"'] ++ rest)) = some (s, rest) := by
    intro rest
    have h := literal?_quoted s rest
    simpa [Literal.quoted] using h
  exact Lexes.literal (by decide) (by decide) (fun _ => rfl) hread

theorem Lexes.raw {delimiter content : List Char} (hdelimiter : checkDelimiter delimiter = .ok ())
    (hfree : occursIn (terminator delimiter) content = false) :
    Lexes (raw delimiter content) [.token (.text content)] :=
  Lexes.literal (by decide) (by decide) (fun _ => rfl) fun rest =>
    literal?_raw hdelimiter hfree rest

/-- Blanks on one line are no lexemes. -/
theorem Lexes.blanks {blanks piece : List Char} {lexemes : List Lexeme}
    (h : ∀ c ∈ blanks, isBlank c = true ∧ c ≠ '\n') (hpiece : Lexes piece lexemes) :
    Lexes (blanks ++ piece) lexemes := by
  induction blanks with
  | nil => exact hpiece
  | cons c blanks ih =>
    obtain ⟨hc, hblanks⟩ := List.forall_mem_cons.1 h
    exact (ih hblanks).blank hc.2 hc.1

/-- One or more texts, on one line or more. -/
structure IsValue (lexemes : List Lexeme) : Prop where
  texts : ∀ t ∈ tokens lexemes, ∃ value, t = .text value
  ne_nil : tokens lexemes ≠ []

theorem isValue_singleton (value : List Char) : IsValue [.token (.text value)] :=
  ⟨by simp, by simp⟩

/-- Lines between double quotes are one text each. -/
theorem exists_lexes_intercalate {indent : List Char}
    (hindent : ∀ c ∈ indent, isBlank c = true ∧ c ≠ '\n') {lines : List (List Char)}
    (hne : lines ≠ []) :
    ∃ lexemes, Lexes (('\n' :: indent).intercalate (lines.map Literal.quoted)) lexemes ∧
      IsValue lexemes := by
  induction lines with
  | nil => exact absurd rfl hne
  | cons line lines ih =>
    cases lines with
    | nil => exact ⟨_, by simpa using Lexes.quoted line, isValue_singleton line⟩
    | cons next lines =>
      obtain ⟨lexemes, hlexes, hvalue⟩ := ih (by simp)
      refine ⟨.token (.text line) :: .line :: lexemes, ?_, ?_, by simp⟩
      · have hrest := (Lexes.blanks hindent hlexes).line
        simpa [List.intercalate_cons_cons] using (Lexes.quoted line).append hrest
      · intro t ht
        rcases List.mem_cons.1 ht with rfl | ht
        · exact ⟨line, rfl⟩
        · exact hvalue.texts t ht

/-- A literal gives texts and nothing else, whatever stands in it. -/
theorem exists_lexes_render {style : LiteralStyle}
    (hdelimiter : checkDelimiter style.delimiter = .ok ()) {indent content literal : List Char}
    (hindent : ∀ c ∈ indent, isBlank c = true ∧ c ≠ '\n')
    (hrender : style.render indent content = .ok literal) :
    ∃ lexemes, Lexes literal lexemes ∧ IsValue lexemes := by
  obtain ⟨hcheck, hliteral⟩ := (LiteralStyle.render_eq_ok_iff ..).1 hrender
  have hcontent := (LiteralStyle.check_eq_ok_iff ..).1 hcheck
  cases hstrategy : style.strategy with
  | raw =>
    rw [hliteral, hstrategy]
    exact ⟨_, Lexes.raw hdelimiter (hcontent.2 hstrategy).2, isValue_singleton content⟩
  | escaped =>
    obtain ⟨lines, hne, _, hlines⟩ := escaped_eq_intercalate indent content
    rw [hliteral, hstrategy, hlines]
    exact exists_lexes_intercalate hindent hne

/-! ### Initializers -/

theorem isInitializer_texts {texts : List Token} (h : ∀ t ∈ texts, ∃ value, t = .text value)
    (rest : List Token) :
    isInitializer true (texts ++ .sign '\x7d' :: .sign ',' :: rest) = isInitializer false rest := by
  induction texts with
  | nil => simp [isInitializer]
  | cons t texts ih =>
    obtain ⟨⟨value, rfl⟩, htexts⟩ := List.forall_mem_cons.1 h
    rw [List.cons_append, isInitializer]
    · simpa using ih htexts

/-- Entries of a map, without a directive among them. -/
structure IsEntries (lexemes : List Lexeme) : Prop where
  isSign_or_text : ∀ t ∈ tokens lexemes,
    (∃ value, t = .text value) ∨ t = .sign '\x7b' ∨ t = .sign ',' ∨ t = .sign '\x7d'
  isInitializer_append : ∀ rest,
    isInitializer false (tokens lexemes ++ rest) = isInitializer false rest

theorem IsEntries.nil : IsEntries [] :=
  ⟨by simp, by simp⟩

theorem IsEntries.append {front back : List Lexeme} (hfront : IsEntries front)
    (hback : IsEntries back) : IsEntries (front ++ back) := by
  constructor
  · intro t ht
    rw [tokens_append, List.mem_append] at ht
    exact ht.elim (hfront.isSign_or_text t) (hback.isSign_or_text t)
  · intro rest
    rw [tokens_append, List.append_assoc, hfront.isInitializer_append, hback.isInitializer_append]

/-- A key and a value between braces are an entry; the value may begin on a line of its own. -/
theorem IsValue.isEntries {lexemes gap : List Lexeme} (h : IsValue lexemes)
    (hgap : tokens gap = []) (key : List Char) :
    IsEntries (.token (.sign '\x7b') :: .token (.text key) :: .token (.sign ',') :: (gap ++
      (lexemes ++ [.token (.sign '\x7d'), .token (.sign ','), .line]))) := by
  constructor
  · intro t ht
    simp only [tokens_token, tokens_append, hgap, List.nil_append, tokens_line, tokens_nil,
      List.mem_cons, List.mem_append, List.not_mem_nil, or_false] at ht
    rcases ht with rfl | rfl | rfl | ht | rfl | rfl
    · exact .inr (.inl rfl)
    · exact .inl ⟨key, rfl⟩
    · exact .inr (.inr (.inl rfl))
    · exact .inl (h.texts t ht)
    · exact .inr (.inr (.inr rfl))
    · exact .inr (.inr (.inl rfl))
  · intro rest
    obtain ⟨t, texts, htokens⟩ := List.exists_cons_of_ne_nil h.ne_nil
    obtain ⟨⟨value, rfl⟩, htexts⟩ := List.forall_mem_cons.1 (htokens ▸ h.texts)
    simp [hgap, htokens, isInitializer, isInitializer_texts htexts]

end Reader

namespace HeaderStyle

/-! ### Entries -/

theorem isBlank_of_mem_indent : ∀ c ∈ continuationIndent.toList, isBlank c = true ∧ c ≠ '\n' := by
  have hall : continuationIndent.toList.all (fun c => isBlank c && c != '\n') = true := by decide
  simpa using hall

/-- What stands before a literal is a blank, or the end of a line. -/
theorem exists_lexes_gap (style : HeaderStyle) {piece : List Char} {lexemes : List Lexeme}
    (hpiece : Lexes piece lexemes) :
    ∃ gap, tokens gap = [] ∧ Lexes (style.gap ++ piece) (gap ++ lexemes) := by
  rw [gap]
  cases style.literals.strategy with
  | raw => exact ⟨[], rfl, hpiece.space⟩
  | escaped => exact ⟨[.line], rfl, (Lexes.blanks isBlank_of_mem_indent hpiece).line⟩

/-- The text of an asset is one entry. -/
theorem exists_lexes_entry {style : HeaderStyle}
    (hdelimiter : checkDelimiter style.literals.delimiter = .ok ()) {asset : Asset}
    {text : List Char} (hentry : style.entry asset = .ok text) :
    ∃ lexemes, Lexes text lexemes ∧ IsEntries lexemes := by
  obtain ⟨literal, hliteral, rfl⟩ := entry_eq_ok_iff.1 hentry
  obtain ⟨value, hvalue, hisValue⟩ :=
    exists_lexes_render hdelimiter isBlank_of_mem_indent hliteral
  have hend : Lexes ['\x7d', ',', '\n'] [.token (.sign '\x7d'), .token (.sign ','), .line] :=
    Lexes.nil.line.sign (by decide) |>.sign (by decide)
  obtain ⟨gap, hgap, hliterals⟩ := exists_lexes_gap style (hvalue.append hend)
  have hcomma := hliterals.sign (c := ',') (by decide)
  have hopen := ((Lexes.quoted asset.key).append hcomma).sign (c := '\x7b') (by decide)
  refine ⟨_, ?_, hisValue.isEntries hgap asset.key⟩
  have hentry := hopen.space.space.space.space
  simpa [entryIndent] using hentry

theorem exists_lexes_entries {style : HeaderStyle}
    (hdelimiter : checkDelimiter style.literals.delimiter = .ok ()) {assets : List Asset}
    {entries : List (List Char)}
    (hentries : List.Forall₂ (fun asset text => style.entry asset = .ok text) assets entries) :
    ∃ lexemes, Lexes entries.flatten lexemes ∧ IsEntries lexemes := by
  induction hentries with
  | nil => exact ⟨[], .nil, .nil⟩
  | cons hentry _ ih =>
    obtain ⟨lexemes, hlexes, hisEntries⟩ := exists_lexes_entry hdelimiter hentry
    obtain ⟨more, hmore, hareEntries⟩ := ih
    exact ⟨lexemes ++ more, hlexes.append hmore, hisEntries.append hareEntries⟩

/-! ### The text around the entries -/

/-- The sign, the words and the end of a line that is a directive of two words. -/
def directive (command : String) (name : List Char) : List Lexeme :=
  [.token (.sign '#'), .token (.word command.toList), .token (.word name), .line]

def guardOpenLexemes (style : HeaderStyle) : List Lexeme :=
  match style.guard with
  | .pragma => directive "pragma" "once".toList ++ [.line]
  | .define =>
    directive "ifndef" style.guardName ++ directive "define" style.guardName ++ [.line]

def guardCloseLexemes (style : HeaderStyle) : List Lexeme :=
  match style.guard with
  | .pragma => []
  | .define => [.line, .token (.sign '#'), .token (.word "endif".toList), .line]

def includeLexemes (name : String) : List Lexeme :=
  [.token (.sign '#'), .token (.word "include".toList), .token (.sign '<'),
    .token (.word name.toList), .token (.sign '>'), .line]

theorem isWord_of_isIdentifier {name : List Char} (h : isIdentifier name = true) :
    isWord name = true := by
  simp only [isIdentifier, Bool.and_eq_true] at h
  simp [isWord, h.1.1, h.1.2]

theorem lexes_directive (command : String) {name piece : List Char} {lexemes : List Lexeme}
    (hcommand : isWord command.toList = true) (hname : isWord name = true)
    (hpiece : Lexes piece lexemes) :
    Lexes ('#' :: (command.toList ++ ' ' :: (name ++ '\n' :: piece)))
      (directive command name ++ lexemes) :=
  .sign (by decide) (.word_space hcommand (.word_line hname hpiece))

theorem lexes_guardOpen {style : HeaderStyle} (hstyle : style.HasIdentifiers) :
    Lexes style.guardOpen style.guardOpenLexemes := by
  rw [guardOpen, guardOpenLexemes]
  cases hguard : style.guard with
  | pragma =>
    exact lexes_directive "pragma" (by decide) (show isWord "once".toList = true by decide)
      Lexes.nil.line
  | define =>
    have hname := isWord_of_isIdentifier (hstyle.guardName hguard)
    have hdefine := lexes_directive "define" (by decide) hname Lexes.nil.line
    have hopen := lexes_directive "ifndef" (by decide) hname hdefine
    simpa using hopen

theorem newline_notMem_of_isIdentifier {name : List Char} (h : isIdentifier name = true) :
    '\n' ∉ name := by
  simp only [isIdentifier, Bool.and_eq_true, List.all_eq_true] at h
  intro hmem
  exact absurd (h.1.2 _ hmem) (by decide)

theorem lexes_guardClose {style : HeaderStyle} (hstyle : style.HasIdentifiers) :
    Lexes style.guardClose style.guardCloseLexemes := by
  rw [guardClose, guardCloseLexemes]
  cases hguard : style.guard with
  | pragma => exact .nil
  | define =>
    have hline : '\n' ∉ ' ' :: style.guardName := by
      simpa using newline_notMem_of_isIdentifier (hstyle.guardName hguard)
    have hclose : Lexes ("endif".toList ++ ' ' :: ('/' :: '/' :: (' ' :: style.guardName) ++ ['\n']))
        [.token (.word "endif".toList), .line] := .word_space (by decide) (.comment hline)
    simpa using (hclose.sign (c := '#') (by decide)).line

theorem lexes_include (name : String) {piece : List Char} {lexemes : List Lexeme}
    (hname : isWord name.toList = true) (hpiece : Lexes piece lexemes) :
    Lexes ('#' :: ("include".toList ++ ' ' :: '<' :: (name.toList ++ '>' :: '\n' :: piece)))
      (includeLexemes name ++ lexemes) :=
  .sign (by decide) (.word_space (by decide)
    (.sign (by decide) (.word_sign hname (by decide) hpiece.line)))

theorem lexes_includes :
    Lexes "#include <map>\n#include <string>\n\n".toList
      (includeLexemes "map" ++ (includeLexemes "string" ++ [.line])) :=
  lexes_include "map" (by decide) (lexes_include "string" (by decide) Lexes.nil.line)

/-- A name of the standard library, and the sign behind it. -/
theorem lexes_std (name : String) {c : Char} {piece : List Char} {lexemes : List Lexeme}
    (hname : isWord name.toList = true) (hc : isSign c = true) (hpiece : Lexes piece lexemes) :
    Lexes ("std".toList ++ ':' :: ':' :: (name.toList ++ c :: piece))
      (.token (.word "std".toList) :: .token (.sign ':') :: .token (.sign ':') ::
        .token (.word name.toList) :: .token (.sign c) :: lexemes) :=
  .word_sign (by decide) (by decide) (.sign (by decide) (.word_sign hname hc hpiece))

/-- The line from the type of the map to the brace that opens it. -/
theorem lexes_declaration {name : List Char} (hname : isWord name = true) :
    Lexes ("inline const std::map<std::string, const char *> ".toList ++
        (name ++ " = \x7b\n".toList))
      (typeTokens.map .token ++
        [.token (.word name), .token (.sign '='), .token (.sign '\x7b'), .line]) := by
  have hend : Lexes (name ++ ' ' :: '=' :: ' ' :: '\x7b' :: '\n' :: [])
      [.token (.word name), .token (.sign '='), .token (.sign '\x7b'), .line] :=
    .word_space hname (.sign (by decide) (.space (.sign (by decide) (.line .nil))))
  have hvalues : Lexes ("const".toList ++ ' ' :: ("char".toList ++ ' ' :: '*' :: '>' :: ' ' ::
      (name ++ ' ' :: '=' :: ' ' :: '\x7b' :: '\n' :: [])))
      (.token (.word "const".toList) :: .token (.word "char".toList) :: .token (.sign '*') ::
        .token (.sign '>') ::
        [.token (.word name), .token (.sign '='), .token (.sign '\x7b'), .line]) :=
    .word_space (by decide) (.word_space (by decide)
      (.sign (by decide) (.sign (by decide) hend.space)))
  have hkeys := lexes_std "string" (by decide) (show isSign ',' = true by decide) hvalues.space
  have hmap := lexes_std "map" (by decide) (show isSign '<' = true by decide) hkeys
  exact .word_space (show isWord "inline".toList = true by decide)
    (.word_space (show isWord "const".toList = true by decide) hmap)

/-- The notice and the number of files are comments. -/
theorem lexes_comments (count : Nat) :
    Lexes (notice.toList ++ "\n// Embedded files: ".toList ++ Nat.toDigits 10 count ++
      "\n\n".toList) [.line, .line, .line] := by
  have hcount : '\n' ∉ " Embedded files: ".toList ++ Nat.toDigits 10 count := by
    intro hmem
    rcases List.mem_append.1 hmem with hmem | hmem
    · exact absurd hmem (by decide)
    · exact Text.notMem_toDigits (by decide) count hmem
  have hnotice : '\n' ∉ notice.toList.drop 2 := by decide
  have hlines := (Lexes.comment hnotice).append ((Lexes.comment hcount).append Lexes.nil.line)
  simpa [notice] using hlines

def declarationTokens (name : List Char) (entries : List Token) : List Token :=
  typeTokens ++ .word name :: .sign '=' :: .sign '\x7b' :: (entries ++ [.sign '\x7d', .sign ';'])

def declarationLexemes (name : List Char) (entries : List Lexeme) : List Lexeme :=
  typeTokens.map .token ++ .token (.word name) :: .token (.sign '=') :: .token (.sign '\x7b') ::
    .line :: (entries ++ [.token (.sign '\x7d'), .token (.sign ';')])

theorem tokens_declarationLexemes (name : List Char) (entries : List Lexeme) :
    tokens (declarationLexemes name entries) = declarationTokens name (tokens entries) := by
  simp [declarationLexemes, declarationTokens, typeTokens]

/-- A rendered header is comments, directives, and one declaration. -/
theorem exists_lexemes?_render {style : HeaderStyle} (hstyle : style.HasIdentifiers)
    (hdelimiter : checkDelimiter style.literals.delimiter = .ok ()) {table : Table}
    {header : List Char} (hrender : style.render table = .ok header) :
    ∃ entries, IsEntries entries ∧ lexemes? header =
      some (.line :: .line :: .line :: (style.guardOpenLexemes ++ (includeLexemes "map" ++
        (includeLexemes "string" ++ .line ::
          (declarationLexemes style.tableName entries ++ .line :: style.guardCloseLexemes))))) := by
  obtain ⟨texts, htexts, rfl⟩ := render_eq_ok_iff.1 hrender
  obtain ⟨entries, hentries, hisEntries⟩ := exists_lexes_entries hdelimiter htexts
  refine ⟨entries, hisEntries, ?_⟩
  have hname := isWord_of_isIdentifier hstyle.tableName
  have hend : Lexes ('\x7d' :: ';' :: '\n' :: style.guardClose)
      (.token (.sign '\x7d') :: .token (.sign ';') :: .line :: style.guardCloseLexemes) :=
    .sign (by decide) (.sign (by decide) (lexes_guardClose hstyle).line)
  have hwhole := (lexes_comments table.size).append ((lexes_guardOpen hstyle).append
    (lexes_includes.append ((lexes_declaration hname).append (hentries.append hend))))
  have hlexemes := hwhole.eq_some
  simpa [opening, front, closing, declarationLexemes] using hlexemes

end HeaderStyle

end AssetBake
