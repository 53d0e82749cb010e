import AssetBake.Proofs.Config.Validation
import AssetBake.Proofs.Header.Tokens

/-!
# What a header declares

A header declares the variable that its style names, unless that name or the name of its guard stands in
the way: a keyword names no variable and no macro, and the macro that guards the header leaves nothing of
its own name in the declaration. Settings are accepted without a look at either.
-/

namespace AssetBake

open Text Reader Literal

namespace Reader

/-! ### Steps of the preprocessor -/

section Steps

variable {defined : List (List Char)} {opened : Nat} {rest : List (List Token)}

theorem preprocess?_nil : preprocess? defined opened 0 ([] :: rest) =
    preprocess? defined opened 0 rest := by
  simp [preprocess?]

theorem preprocess?_idle {parts : List Token} (h : directive? parts = some .idle) :
    preprocess? defined opened 0 ((.sign '#' :: parts) :: rest) =
      preprocess? defined opened 0 rest := by
  rw [preprocess?.eq_def]
  simp [h]

theorem preprocess?_ifUndefined {parts : List Token} {name : List Char}
    (h : directive? parts = some (.ifUndefined name)) (hname : name ∉ defined) :
    preprocess? defined opened 0 ((.sign '#' :: parts) :: rest) =
      preprocess? defined (opened + 1) 0 rest := by
  rw [preprocess?.eq_def]
  simp [h, hname]

theorem preprocess?_define {parts : List Token} {name : List Char}
    (h : directive? parts = some (.define name)) :
    preprocess? defined opened 0 ((.sign '#' :: parts) :: rest) =
      if isReserved name then none else preprocess? (name :: defined) opened 0 rest := by
  rw [preprocess?.eq_def]
  simp [h]

theorem preprocess?_close {parts : List Token} (h : directive? parts = some .close) :
    preprocess? defined (opened + 1) 0 ((.sign '#' :: parts) :: rest) =
      preprocess? defined opened 0 rest := by
  rw [preprocess?.eq_def]
  simp [h]

end Steps

theorem isLeft_nil : isLeft [] = fun _ => true := by
  funext t
  cases t <;> rfl

/-! ### Declarations -/

theorem declared?_eq_some_iff {tokens : List Token} {name : List Char} :
    declared? tokens = some name ↔ ∃ body,
      tokens = typeTokens ++ .word name :: .sign '=' :: .sign '\x7b' :: body ∧
      isIdentifier name = true ∧ isKeyword name = false ∧ isInitializer false body = true := by
  constructor
  · intro h
    rw [declared?] at h
    split at h
    · next hprefix =>
      obtain ⟨others, rfl⟩ := List.isPrefixOf_iff_prefix.1 hprefix
      rw [List.drop_left] at h
      split at h
      · next name' body =>
        split at h
        · next hall =>
          cases h
          simp only [Bool.and_eq_true, Bool.not_eq_true'] at hall
          exact ⟨body, rfl, hall.1.1, hall.1.2, hall.2⟩
        · cases h
      · cases h
    · cases h
  · rintro ⟨body, rfl, hidentifier, hkeyword, hbody⟩
    rw [declared?, if_pos (List.isPrefixOf_iff_prefix.2 (List.prefix_append _ _)), List.drop_left]
    simp [hidentifier, hkeyword, hbody]

end Reader

namespace HeaderStyle

/-- What the header leaves when its directives have been carried out. -/
theorem preprocessed?_render {style : HeaderStyle} (hstyle : style.HasIdentifiers)
    (hdelimiter : checkDelimiter style.literals.delimiter = .ok ()) {table : Table}
    {header : List Char} (hrender : style.render table = .ok header) :
    ∃ entries, IsEntries entries ∧ preprocessed? header =
      let declaration := declarationTokens style.tableName (tokens entries)
      match style.guard with
      | .pragma => some declaration
      | .define =>
        if isReserved style.guardName then none
        else some (declaration.filter (isLeft [style.guardName])) := by
  obtain ⟨entries, hentries, hlexemes⟩ := exists_lexemes?_render hstyle hdelimiter hrender
  refine ⟨entries, hentries, ?_⟩
  have hplain : .sign '#' ∉ (lines (declarationLexemes style.tableName entries)).flatten := by
    rw [flatten_lines, tokens_declarationLexemes, declarationTokens]
    simp [typeTokens]
    intro h
    rcases hentries.isSign_or_text _ h with ⟨value, h⟩ | h | h | h
    · simp at h
    · simp at h
    · simp at h
    · simp at h
  rw [preprocessed?, hlexemes, Option.bind_some, guardOpenLexemes, guardCloseLexemes]
  cases hguard : style.guard with
  | pragma =>
    simp only [directive, includeLexemes, List.cons_append, List.nil_append, lines, List.headD_cons,
      List.tail_cons, lines_append_line]
    rw [preprocess?_nil, preprocess?_nil, preprocess?_nil, preprocess?_idle rfl, preprocess?_nil,
      preprocess?_idle rfl, preprocess?_idle rfl, preprocess?_nil, preprocess?_append hplain,
      flatten_lines, tokens_declarationLexemes, isLeft_nil]
    simp [preprocess?]
  | define =>
    have hifUndefined : directive? [.word "ifndef".toList, .word style.guardName] =
        some (.ifUndefined style.guardName) := rfl
    simp only [directive, includeLexemes, List.cons_append, List.nil_append, lines, List.headD_cons,
      List.tail_cons, lines_append_line]
    rw [preprocess?_nil, preprocess?_nil, preprocess?_nil,
      preprocess?_ifUndefined hifUndefined (by simp),
      preprocess?_define rfl]
    by_cases hreserved : isReserved style.guardName = true
    · simp only [hreserved, if_true]
    · rw [if_neg hreserved, if_neg hreserved, preprocess?_nil, preprocess?_idle rfl,
        preprocess?_idle rfl, preprocess?_nil, preprocess?_append hplain, preprocess?_nil,
        preprocess?_close rfl, flatten_lines, tokens_declarationLexemes]
      simp [preprocess?]

def typeWords : List (List Char) :=
  ["inline".toList, "const".toList, "std".toList, "map".toList, "string".toList, "char".toList]

/-- The names of a style stand in the way of nothing: the name of the map is no keyword, and that of
the guard may be a macro and is no word of the declaration. -/
structure NamesAreFree (style : HeaderStyle) : Prop where
  tableName : isKeyword style.tableName = false
  guardName : style.guard = .define →
    isReserved style.guardName = false ∧ style.guardName ∉ style.tableName :: typeWords

theorem mem_typeTokens {word : List Char} (h : word ∈ typeWords) : .word word ∈ typeTokens := by
  have hall : typeWords.all (fun word => typeTokens.contains (.word word)) = true := by decide
  simpa using List.all_eq_true.1 hall word h

theorem typeTokens_are_left {guard : List Char} (h : guard ∉ typeWords) :
    typeTokens.filter (isLeft [guard]) = typeTokens := by
  rw [List.filter_eq_self]
  intro t ht
  cases t with
  | word word =>
    have hword : word ∈ typeWords := by
      simp only [typeTokens, List.mem_cons, Token.word.injEq, reduceCtorEq, false_or,
        List.not_mem_nil, or_false] at ht
      rcases ht with rfl | rfl | rfl | rfl | rfl | rfl | rfl | rfl
      all_goals simp [typeWords]
    have hne : word ≠ guard := fun heq => h (heq ▸ hword)
    simpa using hne
  | text value => rfl
  | sign c => rfl

theorem entries_are_left {entries : List Lexeme} (h : IsEntries entries) (guard : List Char) :
    (tokens entries).filter (isLeft [guard]) = tokens entries := by
  rw [List.filter_eq_self]
  intro t ht
  rcases h.isSign_or_text t ht with ⟨value, rfl⟩ | rfl | rfl | rfl
  · rfl
  · rfl
  · rfl
  · rfl

/-- A declaration that nothing is taken from declares its name, if that is no keyword. -/
theorem declared?_declarationTokens {table : List Char} (htable : isIdentifier table = true)
    {entries : List Lexeme} (hentries : IsEntries entries) (name : List Char) :
    declared? (declarationTokens table (tokens entries)) = some name ↔
      isKeyword table = false ∧ name = table := by
  rw [declared?_eq_some_iff, declarationTokens]
  constructor
  · rintro ⟨body, htokens, _, hkeyword, _⟩
    have hrest := List.append_cancel_left htokens
    obtain rfl : table = name := by simpa using congrArg List.head? hrest
    exact ⟨hkeyword, rfl⟩
  · rintro ⟨hkeyword, rfl⟩
    refine ⟨_, rfl, htable, hkeyword, ?_⟩
    rw [hentries.isInitializer_append]
    rfl

theorem declaration_is_left {table guard : List Char} (h : guard ∉ table :: typeWords)
    {entries : List Lexeme} (hentries : IsEntries entries) :
    (declarationTokens table (tokens entries)).filter (isLeft [guard]) =
      declarationTokens table (tokens entries) := by
  rw [List.mem_cons, not_or] at h
  have htable : isLeft [guard] (.word table) = true := by
    simpa using fun heq : table = guard => h.1 heq.symm
  rw [declarationTokens, List.filter_append, typeTokens_are_left h.2,
    List.filter_cons_of_pos htable, List.filter_cons_of_pos (isLeft_sign _ _),
    List.filter_cons_of_pos (isLeft_sign _ _), List.filter_append, entries_are_left hentries]
  rfl

/-- What is left of a declaration without the name of a macro declares something just if that name is
no word of the declaration. -/
theorem declared?_filter {table : List Char} (htable : isIdentifier table = true)
    {entries : List Lexeme} (hentries : IsEntries entries) (guard name : List Char) :
    declared? ((declarationTokens table (tokens entries)).filter (isLeft [guard])) = some name ↔
      guard ∉ table :: typeWords ∧ isKeyword table = false ∧ name = table := by
  constructor
  · intro h
    -- A word that is declared, or stands in the type, has been left.
    obtain ⟨body, htokens, _, hkeyword, _⟩ := declared?_eq_some_iff.1 h
    have hleft : ∀ t ∈ typeTokens ++ .word name :: .sign '=' :: .sign '\x7b' :: body,
        isLeft [guard] t = true := by
      intro t ht
      rw [← htokens] at ht
      exact (List.mem_filter.1 ht).2
    have htype : guard ∉ typeWords := by
      intro hmem
      have hguard := hleft (.word guard) (List.mem_append_left _ (mem_typeTokens hmem))
      simp at hguard
    rw [declarationTokens, List.filter_append, typeTokens_are_left htype] at htokens
    have hrest := List.append_cancel_left htokens
    by_cases hguard : table = guard
    · rw [List.filter_cons_of_neg (by simp [hguard]),
        List.filter_cons_of_pos (isLeft_sign _ _)] at hrest
      cases hrest
    · obtain ⟨rfl, _⟩ : table = name ∧ _ := by simpa [hguard] using hrest
      refine ⟨?_, hkeyword, rfl⟩
      rw [List.mem_cons, not_or]
      exact ⟨fun heq => hguard heq.symm, htype⟩
  · rintro ⟨hguard, hdeclares⟩
    rw [declaration_is_left hguard hentries]
    exact (declared?_declarationTokens htable hentries name).2 hdeclares

/-- A header declares the variable of its style just if the names of the style are free, and else
none. -/
theorem declaredBy?_render {style : HeaderStyle} (hstyle : style.HasIdentifiers)
    (hdelimiter : checkDelimiter style.literals.delimiter = .ok ()) {table : Table}
    {header : List Char} (hrender : style.render table = .ok header) (name : List Char) :
    declaredBy? header = some name ↔ style.NamesAreFree ∧ name = style.tableName := by
  obtain ⟨entries, hentries, hpreprocessed⟩ := preprocessed?_render hstyle hdelimiter hrender
  rw [declaredBy?, hpreprocessed]
  cases hguard : style.guard with
  | pragma =>
    rw [Option.bind_some, declared?_declarationTokens hstyle.tableName hentries]
    constructor
    · rintro ⟨hkeyword, hname⟩
      exact ⟨⟨hkeyword, fun h => by simp [hguard] at h⟩, hname⟩
    · rintro ⟨hfree, hname⟩
      exact ⟨hfree.tableName, hname⟩
  | define =>
    by_cases hreserved : isReserved style.guardName = true
    · simp only [hreserved, if_true, Option.bind_none, reduceCtorEq, false_iff]
      rintro ⟨hfree, _⟩
      exact absurd hreserved (by simp [(hfree.guardName hguard).1])
    · simp only [if_neg hreserved, Option.bind_some, declared?_filter hstyle.tableName hentries]
      rw [Bool.not_eq_true] at hreserved
      constructor
      · rintro ⟨hother, hkeyword, hname⟩
        exact ⟨⟨hkeyword, fun _ => ⟨hreserved, hother⟩⟩, hname⟩
      · rintro ⟨hfree, hname⟩
        exact ⟨(hfree.guardName hguard).2, hfree.tableName, hname⟩

theorem declaredBy?_render_eq_none {style : HeaderStyle} (hstyle : style.HasIdentifiers)
    (hdelimiter : checkDelimiter style.literals.delimiter = .ok ()) {table : Table}
    {header : List Char} (hrender : style.render table = .ok header) (h : ¬style.NamesAreFree) :
    declaredBy? header = none := by
  rw [Option.eq_none_iff_forall_ne_some]
  intro name hname
  exact h ((declaredBy?_render hstyle hdelimiter hrender name).1 hname).1

end HeaderStyle

namespace Config

/-- Accepted settings give their header identifiers for names. -/
theorem IsAccepted.hasIdentifiers {config : Config} (h : config.IsAccepted) :
    config.headerStyle.HasIdentifiers :=
  ⟨h.table, h.guardName⟩

/-- The names of accepted settings are identifiers, and a header written under them declares the map
just if the names are free, and else nothing. -/
theorem header_declares_iff {config : Config} {source : Path} {table : Table} {header : List Char}
    (hvalid : config.validate source = .ok ()) (hrender : config.headerStyle.render table = .ok header) :
    isIdentifier config.table = true ∧
      (config.guard = .define → isIdentifier config.effectiveGuardName = true) ∧
      ∀ name, declaredBy? header = some name ↔
        config.headerStyle.NamesAreFree ∧ name = config.table := by
  have haccepted := validate_eq_ok_iff.1 hvalid
  exact ⟨haccepted.table, haccepted.guardName,
    HeaderStyle.declaredBy?_render haccepted.hasIdentifiers haccepted.delimiter hrender⟩

/-- A header of one asset that a macro guards. -/
theorem header_declares_baked_stdlib :
    { standard with guard := .define }.validate (.ofString "stdbake.toml") = .ok () ∧
      ∃ header, { standard with guard := .define }.headerStyle.render
          ⟨[⟨"std_f".toList, ⟨.ofString "f", .ofString "f"⟩, "hi"⟩]⟩ = .ok header ∧
        declaredBy? header = some "baked_stdlib".toList := by
  have hvalid : { standard with guard := .define }.validate (.ofString "stdbake.toml") = .ok () := rfl
  obtain ⟨header, hrender⟩ : ∃ header, { standard with guard := .define }.headerStyle.render
      ⟨[⟨"std_f".toList, ⟨.ofString "f", .ofString "f"⟩, "hi"⟩]⟩ = .ok header := ⟨_, rfl⟩
  have hdeclares := (header_declares_iff hvalid hrender).2.2 "baked_stdlib".toList
  refine ⟨hvalid, header, hrender, hdeclares.2 ⟨⟨by decide, fun _ => ?_⟩, rfl⟩⟩
  exact ⟨by decide, by decide⟩

/-- The settings are accepted, and the header of no assets declares nothing. -/
def DeclaresNothing (config : Config) : Prop :=
  config.validate (.ofString "stdbake.toml") = .ok () ∧
    ∃ header, config.headerStyle.render ⟨[]⟩ = .ok header ∧ declaredBy? header = none

theorem declaresNothing_of_not_free {config : Config}
    (hvalid : config.validate (.ofString "stdbake.toml") = .ok ())
    (h : ¬config.headerStyle.NamesAreFree) : config.DeclaresNothing := by
  have haccepted := validate_eq_ok_iff.1 hvalid
  obtain ⟨header, hrender⟩ : ∃ header, config.headerStyle.render ⟨[]⟩ = .ok header := ⟨_, rfl⟩
  exact ⟨hvalid, header, hrender, HeaderStyle.declaredBy?_render_eq_none haccepted.hasIdentifiers
    haccepted.delimiter hrender h⟩

/-- Accepted settings whose headers declare nothing: the map has the name of a type, or that of the macro
that guards its header, or the macro has the name of a namespace that the declaration needs. -/
theorem accepted_declares_nothing :
    DeclaresNothing { standard with table := "int".toList } ∧
      DeclaresNothing { standard with guard := .define, table := "BAKE_HPP".toList } ∧
      DeclaresNothing { standard with guard := .define, guardName := some "std".toList } := by
  refine ⟨?_, ?_, ?_⟩
  · apply declaresNothing_of_not_free rfl
    intro hfree
    exact absurd hfree.tableName (by decide)
  · apply declaresNothing_of_not_free rfl
    intro hfree
    exact absurd (hfree.guardName rfl).2 (by decide)
  · apply declaresNothing_of_not_free rfl
    intro hfree
    exact absurd (hfree.guardName rfl).2 (by decide)

end Config

end AssetBake
