import AssetBake.Proofs.Header.Lexer

/-!
# Preprocessing headers

The tokens of a header that are left when its directives have been carried out, and the variable that
they declare. The header is read for the first time: no macro is defined before it, and what it includes
is not looked into. A macro that is defined has no text of its own, so wherever its name stands
afterwards nothing is left.
-/

namespace AssetBake.Reader

/-! ### Reserved words -/

/-- The keywords of C++17 and the words that stand for operators. -/
def keywords : List String :=
  ["alignas", "alignof", "and", "and_eq", "asm", "auto", "bitand", "bitor", "bool", "break", "case",
    "catch", "char", "char16_t", "char32_t", "class", "compl", "const", "const_cast", "constexpr",
    "continue", "decltype", "default", "delete", "do", "double", "dynamic_cast", "else", "enum",
    "explicit", "export", "extern", "false", "float", "for", "friend", "goto", "if", "inline", "int",
    "long", "mutable", "namespace", "new", "noexcept", "not", "not_eq", "nullptr", "operator", "or",
    "or_eq", "private", "protected", "public", "register", "reinterpret_cast", "return", "short",
    "signed", "sizeof", "static", "static_assert", "static_cast", "struct", "switch", "template",
    "this", "thread_local", "throw", "true", "try", "typedef", "typeid", "typename", "union",
    "unsigned", "using", "virtual", "void", "volatile", "wchar_t", "while", "xor", "xor_eq"]

def isKeyword (name : List Char) : Bool :=
  keywords.any fun word => word.toList == name

/-- Whether no macro may have the name. -/
def isReserved (name : List Char) : Bool :=
  isKeyword name || name == "defined".toList

/-! ### Directives -/

def lines : List Lexeme → List (List Token)
  | [] => [[]]
  | .line :: rest => [] :: lines rest
  | .token t :: rest => (t :: (lines rest).headD []) :: (lines rest).tail

inductive Directive
  /-- Changes nothing in a header that is read for the first time. -/
  | idle
  | ifUndefined (name : List Char)
  | define (name : List Char)
  | close

/-- The directive that a line gives behind its sign. -/
def directive? : List Token → Option Directive
  | [.word command] => if command = "endif".toList then some .close else none
  | [.word command, .word name] =>
    if command = "pragma".toList ∧ name = "once".toList then some .idle
    else if command = "ifndef".toList then some (.ifUndefined name)
    else if command = "define".toList then some (.define name)
    else none
  | [.word command, .sign '<', .word _, .sign '>'] =>
    if command = "include".toList then some .idle else none
  | _ => none

/-- Whether a token is left where the given macros are defined. -/
def isLeft (defined : List (List Char)) : Token → Bool
  | .word name => !defined.contains name
  | _ => true

section IsLeft

variable (defined : List (List Char))

@[simp] theorem isLeft_word (name : List Char) :
    isLeft defined (.word name) = !defined.contains name := rfl

@[simp] theorem isLeft_text (value : List Char) : isLeft defined (.text value) = true := rfl

@[simp] theorem isLeft_sign (c : Char) : isLeft defined (.sign c) = true := rfl

end IsLeft

/-- The tokens that the lines leave where macros are defined and groups are open; in a group that is
skipped only the groups inside it are counted. -/
def preprocess? (defined : List (List Char)) (opened skipped : Nat) :
    List (List Token) → Option (List Token)
  | [] => if opened = 0 ∧ skipped = 0 then some [] else none
  | (.sign '#' :: parts) :: rest =>
    match directive? parts, skipped with
    | none, 0 => none
    | some .idle, 0 => preprocess? defined opened 0 rest
    | some (.ifUndefined name), 0 =>
      if defined.contains name then preprocess? defined opened 1 rest
      else preprocess? defined (opened + 1) 0 rest
    | some (.define name), 0 =>
      if isReserved name then none else preprocess? (name :: defined) opened 0 rest
    | some .close, 0 => if opened = 0 then none else preprocess? defined (opened - 1) 0 rest
    | some (.ifUndefined _), n + 1 => preprocess? defined opened (n + 2) rest
    | some .close, n + 1 => preprocess? defined opened n rest
    | _, n + 1 => preprocess? defined opened (n + 1) rest
  | tokens :: rest =>
    if skipped = 0 then
      (preprocess? defined opened 0 rest).map (tokens.filter (isLeft defined) ++ ·)
    else preprocess? defined opened skipped rest

def preprocessed? (header : List Char) : Option (List Token) :=
  (lexemes? header).bind fun lexemes => preprocess? [] 0 0 (lines lexemes)

/-! ### Declarations -/

/-- The tokens `inline const std::map<std::string, const char *>`. -/
def typeTokens : List Token :=
  [.word "inline".toList, .word "const".toList, .word "std".toList, .sign ':', .sign ':',
    .word "map".toList, .sign '<', .word "std".toList, .sign ':', .sign ':', .word "string".toList,
    .sign ',', .word "const".toList, .word "char".toList, .sign '*', .sign '>']

/-- Whether tokens are entries of a map, each with a comma behind it, and the end of the map; in an
entry, one or more texts make up the value. -/
def isInitializer (inValue : Bool) : List Token → Bool
  | [.sign '\x7d', .sign ';'] => !inValue
  | .sign '\x7b' :: .text _ :: .sign ',' :: .text _ :: rest => !inValue && isInitializer true rest
  | .text _ :: rest => inValue && isInitializer true rest
  | .sign '\x7d' :: .sign ',' :: rest => inValue && isInitializer false rest
  | _ => false

/-- The name of the variable that the tokens declare, if they are the declaration of one map. -/
def declared? (tokens : List Token) : Option (List Char) :=
  if typeTokens.isPrefixOf tokens then
    match tokens.drop typeTokens.length with
    | .word name :: .sign '=' :: .sign '\x7b' :: body =>
      if isIdentifier name && !isKeyword name && isInitializer false body then some name else none
    | _ => none
  else none

def declaredBy? (header : List Char) : Option (List Char) :=
  (preprocessed? header).bind declared?

/-! ### Lines -/

def tokens (lexemes : List Lexeme) : List Token :=
  lexemes.filterMap fun l =>
    match l with
    | .token t => some t
    | .line => none

section Tokens

variable (t : Token) (lexemes more : List Lexeme)

@[simp] theorem tokens_nil : tokens [] = [] := rfl

@[simp] theorem tokens_token : tokens (.token t :: lexemes) = t :: tokens lexemes := rfl

@[simp] theorem tokens_line : tokens (.line :: lexemes) = tokens lexemes := rfl

@[simp] theorem tokens_append : tokens (lexemes ++ more) = tokens lexemes ++ tokens more :=
  List.filterMap_append

theorem lines_ne_nil : lines lexemes ≠ [] := by
  cases lexemes with
  | nil => simp [lines]
  | cons l lexemes => cases l <;> simp [lines]

/-- The end of a line keeps the lines before it from those behind it. -/
theorem lines_append_line : lines (lexemes ++ .line :: more) = lines lexemes ++ lines more := by
  induction lexemes with
  | nil => rfl
  | cons l lexemes ih =>
    cases l with
    | line => simp [lines, ih]
    | token t =>
      obtain ⟨first, others, hlines⟩ := List.exists_cons_of_ne_nil (lines_ne_nil lexemes)
      simp [lines, ih, hlines]

theorem flatten_lines : (lines lexemes).flatten = tokens lexemes := by
  induction lexemes with
  | nil => rfl
  | cons l lexemes ih =>
    cases l with
    | line => simpa [lines] using ih
    | token t =>
      obtain ⟨first, others, hlines⟩ := List.exists_cons_of_ne_nil (lines_ne_nil lexemes)
      simp [lines, hlines, ← ih]

end Tokens

/-- Lines without directives leave all their tokens but the names of macros. -/
theorem preprocess?_append {defined : List (List Char)} {opened : Nat}
    {front rest : List (List Token)} (h : .sign '#' ∉ front.flatten) :
    preprocess? defined opened 0 (front ++ rest) =
      (preprocess? defined opened 0 rest).map (front.flatten.filter (isLeft defined) ++ ·) := by
  induction front with
  | nil => simp
  | cons line front ih =>
    simp only [List.flatten_cons, List.mem_append, not_or] at h
    have hstep : preprocess? defined opened 0 (line :: (front ++ rest)) =
        (preprocess? defined opened 0 (front ++ rest)).map (line.filter (isLeft defined) ++ ·) := by
      rw [preprocess?.eq_def]
      split
      · simp_all
      · simp_all
      · simp_all
    rw [List.cons_append, hstep, ih h.2, Option.map_map]
    congr 1
    funext others
    simp

end AssetBake.Reader
