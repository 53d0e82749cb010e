import Mathlib.Data.List.Chain
import AssetBake.Proofs.Literal.Characters

/-!
# Escaped literals and the phases before them

Before a compiler looks for literals it replaces trigraphs and joins each line that ends in a backslash
with the next. An escaped text holds nothing that either would change. Its quotes are told apart by the
backslashes before them, which is an invariant of the text as it is written: no escape is left open, and
a quote always stands behind an open one.
-/

namespace AssetBake

open Text

/-! ### The two phases -/

namespace Reader

/-- The sign that a trigraph stands for, by its last character. -/
def trigraphSign? : Char → Option Char
  | '=' => some '#'
  | '/' => some '\\'
  | '\'' => some '^'
  | '(' => some '['
  | ')' => some ']'
  | '!' => some '|'
  | '<' => some '\x7b'
  | '>' => some '\x7d'
  | '-' => some '~'
  | _ => none

/-- The text with the sign of each trigraph in its place. -/
def replaceTrigraphs : List Char → List Char
  | '?' :: '?' :: c :: rest =>
    match trigraphSign? c with
    | some sign => sign :: replaceTrigraphs rest
    | none => '?' :: replaceTrigraphs ('?' :: c :: rest)
  | c :: rest => c :: replaceTrigraphs rest
  | [] => []

/-- The text with each line that ends in a backslash joined with the next. -/
def spliceLines : List Char → List Char
  | '\\' :: '\n' :: rest => spliceLines rest
  | c :: rest => c :: spliceLines rest
  | [] => []

-- The one phase can make what the other takes away.
example : spliceLines (replaceTrigraphs "a???/\nb".toList) = "a?b".toList := by decide

/-- Neighbours that neither begin a trigraph nor end a line that is joined with the next. -/
def Inert (a b : Char) : Prop :=
  ¬(a = '?' ∧ b = '?') ∧ ¬(a = '\\' ∧ b = '\n')

theorem inert_of_left {a : Char} (hquestion : a ≠ '?') (hslash : a ≠ '\\') (b : Char) : Inert a b :=
  ⟨fun h => hquestion h.1, fun h => hslash h.1⟩

theorem inert_of_right {b : Char} (hquestion : b ≠ '?') (hline : b ≠ '\n') (a : Char) : Inert a b :=
  ⟨fun h => hquestion h.2, fun h => hline h.2⟩

theorem isChain_inert_cons {text : List Char} (h : ∀ b ∈ text, b ≠ '?' ∧ b ≠ '\n') (a : Char) :
    (a :: text).IsChain Inert := by
  induction text generalizing a with
  | nil => exact .singleton a
  | cons b text ih =>
    obtain ⟨⟨hquestion, hline⟩, htext⟩ := List.forall_mem_cons.1 h
    exact .cons_cons (inert_of_right hquestion hline a) (ih htext b)

theorem replaceTrigraphs_eq_self {text : List Char} (h : text.IsChain Inert) :
    replaceTrigraphs text = text := by
  fun_induction replaceTrigraphs text with
  | case1 => exact absurd ⟨rfl, rfl⟩ (List.isChain_cons_cons.1 h).1.1
  | case2 => exact absurd ⟨rfl, rfl⟩ (List.isChain_cons_cons.1 h).1.1
  | case3 c rest _ ih => rw [ih h.tail]
  | case4 => rfl

theorem spliceLines_eq_self {text : List Char} (h : text.IsChain Inert) :
    spliceLines text = text := by
  fun_induction spliceLines text with
  | case1 => exact absurd ⟨rfl, rfl⟩ (List.isChain_cons_cons.1 h).1.2
  | case2 c rest _ ih => rw [ih h.tail]
  | case3 => rfl

theorem not_infix_of_isChain {text : List Char} (h : text.IsChain Inert) :
    ¬['?', '?'] <:+: text ∧ ¬['\\', '\n'] <:+: text := by
  constructor
  · intro hinfix
    have hpair : ['?', '?'].IsChain Inert := List.IsChain.infix h hinfix
    exact (List.isChain_pair.1 hpair).1 ⟨rfl, rfl⟩
  · intro hinfix
    have hpair : ['\\', '\n'].IsChain Inert := List.IsChain.infix h hinfix
    exact (List.isChain_pair.1 hpair).2 ⟨rfl, rfl⟩

end Reader

/-- How many backslashes stand at the end of a text. -/
def trailingSlashes (text : List Char) : Nat :=
  (text.reverse.takeWhile (· == '\\')).length

/-- The characters with the property `Cc`: the control characters of ASCII and those that end in the
two columns after it, from U+0080 to U+009F. -/
def isUnicodeControl (c : Char) : Bool :=
  c.toNat < 0x20 || (0x7f ≤ c.toNat && c.toNat ≤ 0x9f)

namespace Literal

open Reader

/-! ### One character -/

/-- The ways to write a character between double quotes, after a question mark or anything else. -/
inductive Spelling (afterQuestion : Bool) (c : Char) : List Char → Prop
  | plain (hslash : c ≠ '\\') (hquote : c ≠ '"') (hquestion : afterQuestion = true → c ≠ '?') :
      Spelling afterQuestion c [c]
  | short {d : Char} (hd : d ∈ ['\\', '"', 'n', 't', 'r', '?']) (hquestion : d = '?' → c = '?') :
      Spelling afterQuestion c ['\\', d]
  | octal {digits : List Char} (hne : digits ≠ []) (hdigits : ∀ d ∈ digits, isOctal d = true) :
      Spelling afterQuestion c ('\\' :: digits)

theorem spelling_escapedChar (afterQuestion : Bool) (c : Char) :
    Spelling afterQuestion c (escapedChar afterQuestion c) := by
  rw [escapedChar]
  split_ifs with hslash hquote hline htab hreturn hquestion hcontrol
  · exact .short (by simp) (by simp)
  · exact .short (by simp) (by simp)
  · exact .short (by simp) (by simp)
  · exact .short (by simp) (by simp)
  · exact .short (by simp) (by simp)
  · rw [Bool.and_eq_true, decide_eq_true_eq] at hquestion
    exact .short (by simp) fun _ => hquestion.1
  · refine .octal (by simp [octal]) ?_
    simp [octal, isOctal_digitChar, Nat.mod_lt]
  · refine .plain hslash hquote fun hafter heq => hquestion ?_
    simp [hafter, heq]

theorem ne_of_isOctal {d : Char} (h : isOctal d = true) :
    d ≠ '?' ∧ d ≠ '\n' ∧ d ≠ '\\' ∧ d ≠ '"' := by
  refine ⟨?_, ?_, ?_, ?_⟩ <;> rintro rfl <;> exact absurd h (by decide)

theorem toNat_of_isOctal {d : Char} (h : isOctal d = true) : d.toNat < 0x80 := by
  have hle : d ≤ '7' := by simpa using (Bool.and_eq_true_iff.1 h).2
  exact Nat.lt_of_le_of_lt (UInt32.le_iff_toNat_le.1 hle) (by decide)

namespace Spelling

variable {afterQuestion : Bool} {c : Char} {text : List Char}

theorem isChain (h : Spelling afterQuestion c text) : text.IsChain Inert := by
  cases h with
  | plain => exact .singleton c
  | @short d hd =>
    have hline : d ≠ '\n' := by
      rintro rfl
      exact absurd hd (by decide)
    exact List.isChain_pair.2 ⟨fun h => absurd h.1 (by decide), fun h => hline h.2⟩
  | octal _ hdigits =>
    exact isChain_inert_cons (fun d hd => ⟨(ne_of_isOctal (hdigits d hd)).1,
      (ne_of_isOctal (hdigits d hd)).2.1⟩) _

/-- After a question mark no other one begins. -/
theorem head_ne (h : Spelling true c text) : text.head? ≠ some '?' := by
  cases h with
  | plain _ _ hquestion => simpa using hquestion rfl
  | short => simp
  | octal => simp

/-- What ends in a question mark is the spelling of one. -/
theorem eq_of_getLast (h : Spelling afterQuestion c text) (hlast : text.getLast? = some '?') :
    c = '?' := by
  cases h with
  | plain => simpa using hlast
  | short _ hquestion => exact hquestion (by simpa using hlast)
  | @octal digits hne hdigits =>
    rw [List.getLast?_cons_of_ne_nil hne] at hlast
    exact absurd rfl (ne_of_isOctal (hdigits _ (List.mem_of_getLast? hlast))).1

theorem ne_nil (h : Spelling afterQuestion c text) : text ≠ [] := by
  cases h <;> simp

/-- What is beyond ASCII stands for itself. -/
theorem eq_of_mem (h : Spelling afterQuestion c text) {d : Char} (hd : d ∈ text)
    (hwide : 0x80 ≤ d.toNat) : d = c := by
  cases h with
  | plain => exact List.mem_singleton.1 hd
  | @short e he =>
    have hsmall : ∀ e ∈ ['\\', '"', 'n', 't', 'r', '?'], decide (e.toNat < 0x80) = true :=
      List.all_eq_true.1 (by decide)
    have hd : d ∈ ['\\', '"', 'n', 't', 'r', '?'] := by
      rcases List.mem_cons.1 hd with rfl | hd
      · exact List.mem_cons_self
      · exact List.mem_singleton.1 hd ▸ he
    exact absurd hwide (Nat.not_le.2 (of_decide_eq_true (hsmall d hd)))
  | octal _ hdigits =>
    rcases List.mem_cons.1 hd with rfl | hd
    · exact absurd hwide (by decide)
    · exact absurd hwide (Nat.not_le.2 (toNat_of_isOctal (hdigits d hd)))

end Spelling

/-! ### A whole text -/

theorem head_escapeAfter_ne (s : List Char) : (escapeAfter true s).head? ≠ some '?' := by
  cases s with
  | nil => simp [escapeAfter]
  | cons c s =>
    have hspelling := spelling_escapedChar true c
    rw [escapeAfter, List.head?_append_of_ne_nil _ hspelling.ne_nil]
    exact hspelling.head_ne

theorem isChain_escapeAfter (afterQuestion : Bool) (s : List Char) :
    (escapeAfter afterQuestion s).IsChain Inert := by
  induction s generalizing afterQuestion with
  | nil => exact .nil
  | cons c s ih =>
    have hspelling := spelling_escapedChar afterQuestion c
    refine List.isChain_append.2 ⟨hspelling.isChain, ih _, ?_⟩
    intro a ha b hb
    constructor
    · rintro ⟨rfl, rfl⟩
      obtain rfl := hspelling.eq_of_getLast ha
      exact head_escapeAfter_ne s hb
    · rintro ⟨_, rfl⟩
      have hline := isControl_of_mem_escapeAfter (List.mem_of_mem_head? hb)
      exact absurd hline (by decide)

/-- Of the characters beyond ASCII an escaped text holds only its own. -/
theorem mem_of_mem_escapeAfter {afterQuestion : Bool} {s : List Char} {d : Char}
    (hd : d ∈ escapeAfter afterQuestion s) (hwide : 0x80 ≤ d.toNat) : d ∈ s := by
  induction s generalizing afterQuestion with
  | nil => simp [escapeAfter] at hd
  | cons c s ih =>
    rcases List.mem_append.1 hd with hd | hd
    · rw [(spelling_escapedChar afterQuestion c).eq_of_mem hd hwide]
      exact List.mem_cons_self
    · exact List.mem_cons_of_mem _ (ih hd)

theorem isUnicodeControl_of_mem_escape {s : List Char} {d : Char} (hd : d ∈ escape s)
    (hcontrol : isUnicodeControl d = true) : 0x80 ≤ d.toNat ∧ d ∈ s := by
  have hplain := isControl_of_mem_escapeAfter hd
  have hwide : 0x80 ≤ d.toNat := by
    simp [isUnicodeControl, isControl] at hcontrol hplain
    omega
  exact ⟨hwide, mem_of_mem_escapeAfter hd hwide⟩

/-! ### Quotes and the backslashes before them -/

/-- Backslashes in pairs at the end of a text do not change how the next one's count comes out. -/
theorem trailingSlashes_append {front : List Char} (hfront : trailingSlashes front % 2 = 0)
    (back : List Char) : trailingSlashes (front ++ back) % 2 = trailingSlashes back % 2 := by
  simp only [trailingSlashes, List.reverse_append, List.takeWhile_append] at hfront ⊢
  split
  · next hall =>
    rw [List.length_append, ← hall]
    omega
  · rfl

theorem trailingSlashes_concat {c : Char} (h : c ≠ '\\') (front : List Char) :
    trailingSlashes (front ++ [c]) = 0 := by
  simp [trailingSlashes, h]

/-- A text that leaves no escape open at its end, and in which each quote stands behind an open one. -/
structure Sealed (text : List Char) : Prop where
  closed : trailingSlashes text % 2 = 0
  escaped : ∀ front back, text = front ++ '"' :: back → trailingSlashes front % 2 = 1

namespace Sealed

theorem nil : Sealed [] where
  closed := rfl
  escaped := by simp

theorem append {a b : List Char} (ha : Sealed a) (hb : Sealed b) : Sealed (a ++ b) where
  closed := (trailingSlashes_append ha.closed b).trans hb.closed
  escaped := by
    intro front back hsplit
    rcases List.append_eq_append_iff.1 hsplit with ⟨middle, rfl, hquote⟩ | ⟨middle, hfront, hquote⟩
    · exact (trailingSlashes_append ha.closed middle).trans (hb.escaped middle back hquote)
    · cases middle with
      | nil =>
        -- The second text would begin with a quote that nothing escapes.
        exact absurd (hb.escaped [] back hquote.symm) (by decide)
      | cons c middle =>
        obtain rfl : '"' = c := (List.cons.inj hquote).1
        exact ha.escaped front middle hfront

theorem of_spelling {afterQuestion : Bool} {c : Char} {text : List Char}
    (h : Spelling afterQuestion c text) : Sealed text := by
  cases h with
  | plain hslash hquote =>
    constructor
    · rw [← List.nil_append [c], trailingSlashes_concat hslash]
    · intro front back hsplit
      have hmem : '"' ∈ [c] := by simp [hsplit]
      exact absurd (List.mem_singleton.1 hmem).symm hquote
  | @short d =>
    constructor
    · by_cases hd : d = '\\' <;> simp [trailingSlashes, hd]
    · intro front back hsplit
      cases front with
      | nil => simp at hsplit
      | cons e front =>
        obtain ⟨rfl, hrest⟩ := List.cons.inj hsplit
        cases front with
        | nil => rfl
        | cons e' front => simp at hrest
  | @octal digits hne hdigits =>
    constructor
    · obtain ⟨front, d, rfl⟩ := (List.eq_nil_or_concat' digits).resolve_left hne
      have hd := hdigits d (by simp)
      rw [← List.cons_append, trailingSlashes_concat (ne_of_isOctal hd).2.2.1]
    · intro front back hsplit
      have hmem : '"' ∈ '\\' :: digits := by simp [hsplit]
      rcases List.mem_cons.1 hmem with heq | hmem
      · exact absurd heq (by decide)
      · exact absurd rfl (ne_of_isOctal (hdigits _ hmem)).2.2.2

theorem escapeAfter (afterQuestion : Bool) (s : List Char) :
    Sealed (escapeAfter afterQuestion s) := by
  induction s generalizing afterQuestion with
  | nil => exact .nil
  | cons c s ih => exact (of_spelling (spelling_escapedChar _ _)).append (ih _)

end Sealed

/-- Of the quotes in a piece only the one that closes it has an even number of backslashes before it. -/
theorem closing_iff {s front back : List Char} (h : escape s ++ ['"'] = front ++ '"' :: back) :
    trailingSlashes front % 2 = 0 ↔ back = [] := by
  have hsealed : Sealed (escape s) := .escapeAfter false s
  cases List.eq_nil_or_concat' back with
  | inl hnil =>
    subst hnil
    obtain rfl : escape s = front := List.append_cancel_right h
    exact iff_of_true hsealed.closed rfl
  | inr hconcat =>
    obtain ⟨back, c, rfl⟩ := hconcat
    have hinside : escape s = front ++ '"' :: back := by
      have hsplit : escape s ++ ['"'] = (front ++ '"' :: back) ++ [c] := by simpa using h
      exact (List.append_inj' hsplit rfl).1
    have hodd := hsealed.escaped front back hinside
    simp [hodd]

/-! ### The whole literal -/

theorem isChain_quoted (s : List Char) : (quoted s).IsChain Inert := by
  refine List.isChain_append.2 ⟨List.isChain_cons.2 ⟨?_, isChain_escapeAfter false s⟩,
    .singleton _, ?_⟩
  · exact fun b _ => inert_of_left (by decide) (by decide) b
  · intro a _ b hb
    obtain rfl : '"' = b := by simpa using hb
    exact inert_of_right (by decide) (by decide) a

theorem getLast?_quoted (s : List Char) : (quoted s).getLast? = some '"' :=
  List.getLast?_concat

theorem head?_intercalate (glue line : List Char) (more : List (List Char)) :
    (glue.intercalate ((line :: more).map quoted)).head? = some '"' := by
  cases more <;> rfl

theorem isChain_intercalate {glue : List Char} (hglue : glue.IsChain Inert)
    (lines : List (List Char)) : (glue.intercalate (lines.map quoted)).IsChain Inert := by
  induction lines with
  | nil => exact .nil
  | cons line more ih =>
    cases more with
    | nil => simpa using isChain_quoted line
    | cons next more =>
      rw [List.map_cons, List.map_cons, List.intercalate_cons_cons, ← List.map_cons]
      -- Quotes stand on both sides of the glue.
      refine List.isChain_append.2 ⟨List.isChain_append.2 ⟨isChain_quoted line, hglue, ?_⟩, ih, ?_⟩
      · intro a ha b _
        rw [getLast?_quoted, Option.mem_some_iff] at ha
        exact ha ▸ inert_of_left (by decide) (by decide) b
      · intro a _ b hb
        rw [head?_intercalate, Option.mem_some_iff] at hb
        exact hb ▸ inert_of_right (by decide) (by decide) a

theorem isChain_escaped {indent : List Char} (hindent : ∀ c ∈ indent, c = ' ')
    (content : List Char) : (escaped indent content).IsChain Inert := by
  obtain ⟨lines, _, _, hlines⟩ := escaped_eq_intercalate indent content
  have hglue : ∀ c ∈ indent, c ≠ '?' ∧ c ≠ '\n' := by
    intro c hc
    rw [hindent c hc]
    decide
  rw [hlines]
  exact isChain_intercalate (isChain_inert_cons hglue _) lines

/-- What stands between the quotes of one piece, for the line that the piece is written for: no control
character but what the line has beyond ASCII, no quote that could close the piece early, and nothing
that reads as anything else. -/
structure IsBody (line body : List Char) : Prop where
  controls : ∀ c ∈ body, isUnicodeControl c = true → 0x80 ≤ c.toNat ∧ c ∈ line
  closing : ∀ front back, body ++ ['"'] = front ++ '"' :: back →
    (trailingSlashes front % 2 = 0 ↔ back = [])
  reads : literal? ('"' :: body ++ ['"']) = some (line, [])

theorem isBody_escape (line : List Char) : IsBody line (escape line) where
  controls _ := isUnicodeControl_of_mem_escape
  closing _ _ := closing_iff
  reads := by simpa [quoted] using literal?_quoted line []

/-- A written text that reaches a compiler's eyes as it was written and is read there as what it was
written for. -/
structure Survives (indent content text : List Char) : Prop where
  unchanged : spliceLines (replaceTrigraphs text) = text
  noTrigraph : ¬['?', '?'] <:+: text
  noSplice : ¬['\\', '\n'] <:+: text
  pieces : ∃ lines bodies, List.Forall₂ IsBody lines bodies ∧ bodies ≠ [] ∧
    lines.flatten = content ∧
    text = ('\n' :: indent).intercalate (bodies.map fun body => '"' :: body ++ ['"'])
  reads : sequence? text = some (content, [])

/-- An escaped text comes through the phases before the literals unchanged: it has no two question marks
in a row and no backslash before the end of a line. It holds no control character of ASCII but the
newlines between its pieces, and others only where the text has them; each piece ends at the first quote
with an even number of backslashes before it; and the pieces read back as the text. -/
theorem survives_escaped {indent : List Char} (hindent : ∀ c ∈ indent, c = ' ')
    (content : List Char) : Survives indent content (escaped indent content) := by
  have hchain := isChain_escaped hindent content
  obtain ⟨htrigraph, hsplice⟩ := not_infix_of_isChain hchain
  obtain ⟨lines, hne, hflat, hlines⟩ := escaped_eq_intercalate indent content
  refine ⟨?_, htrigraph, hsplice, ⟨lines, lines.map escape, ?_, ?_, hflat, ?_⟩, ?_⟩
  · rw [replaceTrigraphs_eq_self hchain, spliceLines_eq_self hchain]
  · exact List.forall₂_map_right_iff.2 (List.forall₂_same.2 fun line _ => isBody_escape line)
  · simpa using hne
  · rw [hlines, List.map_map]
    rfl
  · have hblank : ∀ c ∈ indent, isBlank c = true := by
      intro c hc
      rw [hindent c hc]
      decide
    have hstop : beginsLiteral (trimStart []) = false := rfl
    have hread := sequence?_escaped hblank content hstop
    rwa [List.append_nil] at hread

/-- A text of question marks, quotes, backslashes and digits behind control characters. -/
theorem survives_escaped_lookalikes :
    (∀ c ∈ "  ".toList, c = ' ') ∧ Survives "  ".toList "???/\n\"\\\"\x017\x7f0\\\n".toList
      (escaped "  ".toList "???/\n\"\\\"\x017\x7f0\\\n".toList) := by
  have hindent : ∀ c ∈ "  ".toList, c = ' ' := by simp
  exact ⟨hindent, survives_escaped hindent _⟩

/-- The control character U+0085 stands for itself in an escaped text. -/
theorem exists_control_in_escaped :
    ¬∀ indent content : List Char, (∀ c ∈ indent, c = ' ') →
      ∀ c ∈ escaped indent content, isUnicodeControl c = true → c = '\n' := by
  intro hnone
  exact absurd (hnone [] ['\u0085'] (by simp) '\u0085' (by decide) (by decide)) (by decide)

end Literal

end AssetBake
